/-
# What holds of every scope

A scope comes about by a run of actions: blocks are entered and left, and names are declared, with
or without success (`Scope.run`).  Whatever the run, four things can be relied on
(`runs_keep_invariants`), and nothing in the type of scopes says so:

* the global frame is there and cannot be left;
* what a frame binds goes by the name it is bound under, symbols (`Frame.OwnNames`) and types
  (`Frame.OwnTypeNames`), so that a variable that is handed over can be told by its name
  (`Context.handed_over_by_name`);
* an enum element stands beside its enum, in the types of the same frame (`Frame.ElementsOwned`).
  That is because elements are declared with their enum and never alone (`Declaration.IsWhole`), the
  enum first; so it holds too of what an enum leaves behind that broke off at a clash;
* the global frame binds `halt` to the event of that name, and nothing can take the name there.

Each is kept by one declaration.  What a frame binds once it binds for good
(`Frame.GrowsBy.value?_eq`), and from that follows all there is to know of `halt`.
-/
import MachineTyping.Proofs.Scope.Declaration
import MachineTyping.Proofs.Tree.Soundness
import MachineTyping.Session

namespace MachineTyping

/-! ## 1. Types are bound under their own names -/

/-- The name under which a type is declared, if it is one that is declared. -/
def Ty.declaredName? : Ty → Option String
  | .enum name => some name
  | .alias name _ => some name
  | _ => none

/-- Every type of a frame is an enum or an alias, bound under its own name. -/
def Frame.OwnTypeNames (frame : Frame) : Prop := ∀ b ∈ frame.types, b.2.declaredName? = some b.1

theorem Declaration.declaredName?_of_mem {declaration : Declaration} {binding : String × Ty}
    (h : binding ∈ declaration.typeBindings) : binding.2.declaredName? = some binding.1 := by
  cases declaration with
  | symbol symbol => cases h
  | enum name elems =>
    obtain rfl := List.mem_singleton.mp h
    rfl
  | «alias» name target =>
    obtain rfl := List.mem_singleton.mp h
    rfl

theorem Frame.OwnTypeNames.growsBy {declaration : Declaration} {frame frame' : Frame}
    (hg : Frame.GrowsBy declaration frame frame') (h : frame.OwnTypeNames) :
    frame'.OwnTypeNames := by
  induction hg with
  | refl => exact h
  | bind _ hb _ ih =>
    obtain ⟨-, rfl⟩ := Frame.bind_eq_ok_iff.mp hb
    exact ih h
  | bindType hm hb _ ih =>
    obtain ⟨-, rfl⟩ := Frame.bindType_eq_ok_iff.mp hb
    exact ih (List.forall_mem_cons.mpr ⟨Declaration.declaredName?_of_mem hm, h⟩)

theorem Scope.Reachable.ownTypeNames {scope : Scope} (h : scope.Reachable) :
    ∀ frame ∈ scope.frames, frame.OwnTypeNames := by
  induction h with
  | initial =>
    intro frame hf
    obtain rfl := List.mem_singleton.mp hf
    exact List.forall_mem_nil _
  | push _ ih => exact Scope.forall_frames_push (List.forall_mem_nil _) ih
  | pop _ hp ih => exact Scope.forall_frames_pop hp ih
  | declare declaration _ ih => exact Scope.forall_frames_declare Frame.OwnTypeNames.growsBy ih

/-! ## 2. Enum elements stand beside their enums -/

/-- **The enum of every element of a frame is among the types of the frame**, under its name. -/
def Frame.ElementsOwned (frame : Frame) : Prop :=
  ∀ b ∈ frame.values, ∀ e, b.2 = .element e → frame.type? e.enum = some (.enum e.enum)

/-- Elements are not declared alone. -/
def Declaration.IsWhole : Declaration → Prop
  | .symbol (.element _) => False
  | .symbol _ | .enum _ _ | .alias _ _ => True

namespace Frame.ElementsOwned

variable {frame frame' : Frame}

theorem bind {symbol : Symbol} (h : frame.ElementsOwned)
    (ho : ∀ e, symbol = .element e → frame.type? e.enum = some (.enum e.enum))
    (hb : frame.bind symbol = .ok frame') : frame'.ElementsOwned := by
  obtain ⟨-, rfl⟩ := Frame.bind_eq_ok_iff.mp hb
  exact List.forall_mem_cons.mpr ⟨ho, h⟩

/-- The name of a type that is bound was free, so it is not the name of an enum that is there. -/
theorem bindType {name : String} {ty : Ty} (h : frame.ElementsOwned)
    (hb : frame.bindType name ty = .ok frame') : frame'.ElementsOwned := by
  obtain ⟨hfree, rfl⟩ := Frame.bindType_eq_ok_iff.mp hb
  intro b hm e he
  have hold : frame.type? e.enum = some (.enum e.enum) := h b hm e he
  have hne : (e.enum == name) = false := by
    rw [beq_eq_false_iff_ne]
    rintro rfl
    rw [hfree] at hold
    cases hold
  show List.lookup e.enum ((name, ty) :: frame.types) = _
  rw [List.lookup_cons, hne]
  exact hold

/-- The elements of an enum that is there are bound up to the first clash. -/
theorem bindElements {enum : String} (h : frame.ElementsOwned)
    (he : frame.type? enum = some (.enum enum)) (elems : List (String × Int)) :
    (frame.bindElements enum elems).1.ElementsOwned := by
  induction elems generalizing frame with
  | nil => exact h
  | cons elem elems ih =>
    simp only [Frame.bindElements]
    cases hb : frame.bind (.element ⟨elem.1, enum, elem.2⟩) with
    | error clash => exact h
    | ok frame' =>
      have ht : frame'.types = frame.types := by
        obtain ⟨-, rfl⟩ := Frame.bind_eq_ok_iff.mp hb
        rfl
      refine ih (h.bind ?_ hb) ?_
      · rintro e hs
        cases hs
        exact he
      · rw [Frame.type?, ht]
        exact he

end Frame.ElementsOwned

namespace Scope

/-- **A declaration keeps elements beside their enums**, on failure too. -/
theorem elementsOwned_declare {scope : Scope} {declaration : Declaration}
    (hw : declaration.IsWhole) (h : ∀ frame ∈ scope.frames, frame.ElementsOwned) :
    ∀ frame ∈ (scope.declare declaration).1.frames, frame.ElementsOwned := by
  obtain ⟨hcurrent, houter⟩ := List.forall_mem_cons.mp h
  have hset : ∀ {frame : Frame}, frame.ElementsOwned →
      ∀ f ∈ ({ scope with current := frame } : Scope).frames, f.ElementsOwned :=
    fun hf => List.forall_mem_cons.mpr ⟨hf, houter⟩
  cases declaration with
  | symbol symbol =>
    simp only [Scope.declare]
    cases hb : scope.current.bind symbol with
    | error clash => exact h
    | ok frame =>
      refine hset (hcurrent.bind ?_ hb)
      rintro e rfl
      exact hw.elim
  | enum name elems =>
    simp only [Scope.declare]
    cases hb : scope.current.bindType name (.enum name) with
    | error clash => exact h
    | ok frame =>
      have he : frame.type? name = some (.enum name) := by
        obtain ⟨-, rfl⟩ := Frame.bindType_eq_ok_iff.mp hb
        exact List.lookup_cons_self
      have hf := (hcurrent.bindType hb).bindElements he elems
      rcases hbs : frame.bindElements name elems with ⟨frame', clash⟩
      rw [hbs] at hf
      simp only [hbs]
      cases clash with
      | none => exact hset hf
      | some clash => exact hset hf
  | «alias» name target =>
    simp only [Scope.declare]
    cases hb : scope.current.bindType name (.alias name target) with
    | error clash => exact h
    | ok frame => exact hset (hcurrent.bindType hb)

theorem elementsOwned_act {scope : Scope} {action : Action}
    (hw : ∀ declaration, action = .declare declaration → declaration.IsWhole)
    (h : ∀ frame ∈ scope.frames, frame.ElementsOwned) :
    ∀ frame ∈ (scope.act action).frames, frame.ElementsOwned := by
  cases action with
  | push => exact Scope.forall_frames_push (List.forall_mem_nil _) h
  | pop =>
    cases hp : scope.pop? with
    | none => simpa [Scope.act, hp] using h
    | some scope' => simpa [Scope.act, hp] using Scope.forall_frames_pop hp h
  | declare declaration => exact elementsOwned_declare (hw declaration rfl) h

theorem elementsOwned_run {scope : Scope} {actions : List Action}
    (hw : ∀ declaration, .declare declaration ∈ actions → declaration.IsWhole)
    (h : ∀ frame ∈ scope.frames, frame.ElementsOwned) :
    ∀ frame ∈ (scope.run actions).frames, frame.ElementsOwned := by
  induction actions generalizing scope with
  | nil => exact h
  | cons action actions ih =>
    refine ih (fun declaration hm => hw declaration (List.mem_cons_of_mem _ hm)) ?_
    refine elementsOwned_act ?_ h
    rintro declaration rfl
    exact hw declaration List.mem_cons_self

end Scope

/-! ## 3. The global frame binds `halt` -/

/-- **A binding stays what it is** as long as its frame is there. -/
theorem Frame.GrowsBy.value?_eq {declaration : Declaration} {frame frame' : Frame}
    (hg : Frame.GrowsBy declaration frame frame') {name : String} {symbol : Symbol}
    (h : frame.value? name = some symbol) : frame'.value? name = some symbol := by
  induction hg with
  | refl => exact h
  | bind _ hb _ ih => exact ih (((Frame.Gains.of_bind hb).value?_iff name symbol).mpr (Or.inl h))
  | bindType _ hb _ ih =>
    exact ih (((Frame.Gains.of_bindType hb).value?_iff name symbol).mpr (Or.inl h))

namespace Scope

variable {scope : Scope}

/-- **A name that the current frame binds cannot be declared again.** -/
theorem declare_fails_of_bound {declaration : Declaration} {symbol old : Symbol}
    (hs : symbol ∈ declaration.symbols) (h : scope.current.value? symbol.name = some old) :
    ∃ clash, (scope.declare declaration).2 = .error clash := by
  cases declaration with
  | symbol s =>
    obtain rfl := List.mem_singleton.mp hs
    exact declare_symbol_fails_iff.mpr ⟨old, h⟩
  | enum name elems =>
    obtain ⟨elem, he, rfl⟩ := List.mem_map.mp hs
    have hfits : ¬ scope.current.Fits elems := Frame.not_fits_iff.mpr (Or.inl ⟨elem, he, old, h⟩)
    exact declare_enum_fails_iff.mpr (Or.inr hfits)
  | «alias» name target => cases hs

/-- The frame that is always there. -/
def global (scope : Scope) : Frame := scope.frames.getLast (List.cons_ne_nil _ _)

/-- The frames inside of it, innermost first. -/
def inner (scope : Scope) : List Frame := scope.frames.dropLast

theorem frames_eq (scope : Scope) : scope.frames = scope.inner ++ [scope.global] :=
  (List.dropLast_append_getLast _).symm

theorem Reachable.global_halt (h : scope.Reachable) :
    scope.global.value? Event.haltName = some (.event .halt) := by
  induction h with
  | initial => rfl
  | push _ ih => exact ih
  | @pop scope scope' _ hp ih =>
    obtain ⟨current, outer⟩ := scope
    cases outer with
    | nil => cases hp
    | cons frame outer =>
      cases hp
      exact ih
  | @declare scope declaration _ ih =>
    obtain ⟨frame, hf, hg⟩ := scope.declare_growsBy declaration
    rw [hf]
    obtain ⟨current, outer⟩ := scope
    cases outer with
    | nil => exact hg.value?_eq ih
    | cons frame outer => exact ih

/-- `halt` is what an inner block makes of it, and the event otherwise. -/
theorem Reachable.lookup_halt (h : scope.Reachable) :
    scope.lookup Event.haltName =
      (scope.inner.findSome? (·.value? Event.haltName)).or (some (.event .halt)) := by
  rw [Scope.lookup, scope.frames_eq, List.findSome?_append]
  simp [h.global_halt]

end Scope

/-! ## 4. Handing over by name -/

/-- **A variable that is handed over can be told by its name**, as far as one scope reaches. -/
theorem Context.handed_over_by_name {ctx : Context} (ho : ctx.scope.OwnNames) {e e' : Expr}
    {t t' n n' : Typed} (ht : (ctx.check e).verdict = .ok t) (ht' : (ctx.check e').verdict = .ok t')
    (hn : n.IsNodeOf t) (hn' : n'.IsNodeOf t') {mode mode' : LinearMode} {v v' : Variable}
    (hh : n.handover? = some (mode, v)) (hh' : n'.handover? = some (mode', v')) :
    v.name = v'.name ↔ v = v' := by
  have hbound : ∀ {e : Expr} {t n : Typed} {mode : LinearMode} {v : Variable},
      (ctx.check e).verdict = .ok t → n.IsNodeOf t → n.handover? = some (mode, v) →
      ctx.scope.lookup v.name = some (.var v) := by
    intro e t n mode v ht hn hh
    have hb : n.Bound ctx := (Context.check_everywhere ho ht n hn).2
    unfold Typed.handover? at hh
    split at hh
    · cases hh
      exact hb
    · cases hh
  constructor
  · intro hname
    have h := hbound ht hn hh
    rw [hname, hbound ht' hn' hh'] at h
    cases h
    rfl
  · exact congrArg Variable.name

/-! ## 5. The result -/

namespace Scope

/-- **What holds after every run.**  Failed actions count: an attempt to leave the global frame
changes nothing, and a declaration that fails leaves behind what it had bound. -/
theorem runs_keep_invariants (actions : List Action) :
    let scope := Scope.initial.run actions
    -- the global frame
    1 ≤ scope.frames.length ∧
    (scope.pop? = none ↔ scope.frames.length = 1) ∧
    (scope.pop? = none → scope.act .pop = scope ∧
      ∀ session : Session, session.scope = scope →
        session.step .pop = (session, .globalFrame)) ∧
    -- names
    (∀ frame ∈ scope.frames, frame.OwnNames ∧ frame.OwnTypeNames) ∧
    (∀ name symbol, scope.lookup name = some symbol → symbol.name = name) ∧
    (∀ (owner : Option Machine) (e e' : Expr) (t t' n n' : Typed) (mode mode' : LinearMode)
      (v v' : Variable),
      ((Context.mk scope owner).check e).verdict = .ok t →
      ((Context.mk scope owner).check e').verdict = .ok t' →
      n.IsNodeOf t → n'.IsNodeOf t' →
      n.handover? = some (mode, v) → n'.handover? = some (mode', v') →
      (v.name = v'.name ↔ v = v')) ∧
    -- enum elements
    ((∀ declaration, .declare declaration ∈ actions → declaration.IsWhole) →
      ∀ frame ∈ scope.frames, frame.ElementsOwned) ∧
    -- `halt`
    scope.global.value? Event.haltName = some (.event .halt) ∧
    (scope.frames.length = 1 → ∀ declaration : Declaration,
      (∃ symbol ∈ declaration.symbols, symbol.name = Event.haltName) →
      ∃ clash, (scope.declare declaration).2 = .error clash) ∧
    ∀ (owner : Option Machine) (span : Span),
      let halt := (Context.mk scope owner).check (.node span .halt)
      ((∀ frame ∈ scope.inner, frame.value? Event.haltName = none) →
        halt = .of (.ok (.node span .event (.event .halt)))) ∧
      ((∃ t, halt.verdict = .ok t) ↔
        ∀ symbol, scope.inner.findSome? (·.value? Event.haltName) = some symbol →
          symbol.kind = .event) := by
  intro scope
  have hr : scope.Reachable := reachable_iff.mpr ⟨actions, rfl⟩
  have ho : scope.OwnNames := hr.ownNames
  have hpop : scope.pop? = none ↔ scope.outer = [] := by
    unfold Scope.pop?
    cases scope.outer <;> simp
  have hlength : scope.frames.length = 1 ↔ scope.outer = [] := by
    simp [Scope.frames]
  refine ⟨Nat.succ_pos _, hpop.trans hlength.symm, ?_, ?_, fun name symbol => ho.lookup_name, ?_,
    ?_, hr.global_halt, ?_, ?_⟩
  · intro hp
    refine ⟨by simp [Scope.act, hp], ?_⟩
    rintro session hs
    simp [Session.step, hs, hp]
  · exact fun frame hf => ⟨ho frame hf, hr.ownTypeNames frame hf⟩
  · intro owner e e' t t' n n' mode mode' v v' ht ht' hn hn' hh hh'
    have ho : (Context.mk scope owner).scope.OwnNames := ho
    exact Context.handed_over_by_name ho ht ht' hn hn' hh hh'
  · intro hw
    refine elementsOwned_run hw fun frame hf => ?_
    obtain rfl := List.mem_singleton.mp hf
    intro b hb e he
    obtain rfl := List.mem_singleton.mp hb
    cases he
  · rintro hl declaration ⟨symbol, hs, hname⟩
    have hglobal : scope.global = scope.current := by
      simp [Scope.global, Scope.frames, hlength.mp hl]
    have hbound : scope.current.value? symbol.name = some (.event .halt) := by
      rw [hname, ← hglobal]
      exact hr.global_halt
    exact declare_fails_of_bound hs hbound
  · intro owner span halt
    have hhalt : halt = .of (Rule.halt scope span) := rfl
    constructor
    · intro hinner
      have hnone : scope.inner.findSome? (·.value? Event.haltName) = none :=
        List.findSome?_eq_none_iff.mpr hinner
      have hlookup : scope.lookup Event.haltName = some (.event .halt) := by
        rw [hr.lookup_halt, hnone]
        rfl
      simp only [hhalt, Rule.halt, Scope.lookupEvent, hlookup]
    · have hok : (∃ t, halt.verdict = .ok t) ↔
          ∃ e, scope.lookup Event.haltName = some (.event e) := by
        simp only [hhalt, Outcome.of_verdict, Rule.halt_eq_ok_iff]
        constructor
        · rintro ⟨t, e, he, -⟩
          exact ⟨e, he⟩
        · rintro ⟨e, he⟩
          exact ⟨_, e, he, rfl⟩
      rw [hok, hr.lookup_halt]
      cases scope.inner.findSome? (·.value? Event.haltName) with
      | none => simp
      | some symbol => cases symbol <;> simp [Symbol.kind]

/-- What an enum leaves behind that broke off at `halt`, after an attempt to leave the global frame:
its first element, beside the enum. -/
theorem runs_keep_invariants_clash :
    (Scope.initial.run [.pop, .declare (.enum "E" [("on", 1), ("halt", 2), ("off", 3)])]).lookup
      "on" = some (.element ⟨"on", "E", 1⟩) ∧
    ∀ frame ∈ (Scope.initial.run
        [.pop, .declare (.enum "E" [("on", 1), ("halt", 2), ("off", 3)])]).frames,
      frame.ElementsOwned ∧ frame.value? "halt" = some (.event .halt) ∧
        frame.value? "off" = none := by
  obtain ⟨-, -, -, -, -, -, helements, -⟩ := runs_keep_invariants
    [.pop, .declare (.enum "E" [("on", 1), ("halt", 2), ("off", 3)])]
  have hwhole : ∀ declaration,
      Action.declare declaration ∈
        [.pop, .declare (.enum "E" [("on", 1), ("halt", 2), ("off", 3)])] →
      declaration.IsWhole := by
    intro declaration hm
    simp only [List.mem_cons, List.not_mem_nil, or_false, reduceCtorEq, false_or,
      Action.declare.injEq] at hm
    rw [hm]
    trivial
  refine ⟨by decide, fun frame hf => ⟨helements hwhole frame hf, ?_⟩⟩
  obtain rfl := List.mem_singleton.mp hf
  decide

end Scope

end MachineTyping
