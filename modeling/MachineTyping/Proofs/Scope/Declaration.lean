/-
# What a declaration changes

A declaration binds names in the current frame, in one namespace or in both.  This module says of
every scope, reachable or not, when a declaration fails and what it leaves behind:

* a symbol or an alias binds one name.  It fails if the frame has a binding of the name in that
  namespace, and then nothing changes;
* an enum binds its own name and then those of its elements.  It fails if one of them is taken when
  its turn comes, and **what was bound before stays**: nothing if it is the enum itself, and the
  enum and the elements before the clash otherwise.

What changes is said of bindings and not of the lists they are kept in: `frame.Gains frame' ..` says
that `frame'` binds what `frame` does, and what is listed, and nothing else.  As the order does not
matter there, gains add up (`Frame.Gains.trans`), and the elements of an enum are bound by one induction
over `Frame.Fits`, the lists that find no clash.
-/
import Mathlib.Data.List.Induction
import Mathlib.Data.List.Nodup
import MachineTyping.Proofs.Scope.Reachable

namespace MachineTyping

/-! ## 1. Gains -/

/-- **A frame gains bindings and nothing else**: types under the given names, and symbols under
their own. -/
structure Frame.Gains (frame frame' : Frame) (types : List (String × Ty))
    (symbols : List Symbol) : Prop where
  type?_iff : ∀ name ty, frame'.type? name = some ty ↔
    frame.type? name = some ty ∨ (name, ty) ∈ types
  value?_iff : ∀ name symbol, frame'.value? name = some symbol ↔
    frame.value? name = some symbol ∨ symbol ∈ symbols ∧ symbol.name = name

/-- **The current frame gains bindings**, and no other frame changes. -/
def Scope.Gains (scope scope' : Scope) (types : List (String × Ty)) (symbols : List Symbol) : Prop :=
  scope.current.Gains scope'.current types symbols ∧ scope'.outer = scope.outer

/-- A binding that is put first is found besides the others, if its name was free. -/
theorem lookup_cons_eq_some_iff {β : Type} {bindings : List (String × β)} {name x : String} {a b : β}
    (hfree : bindings.lookup x = none) :
    ((x, b) :: bindings).lookup name = some a ↔
      bindings.lookup name = some a ∨ x = name ∧ b = a := by
  by_cases hx : name = x
  · subst hx
    simp [hfree]
  · have hne : (name == x) = false := beq_eq_false_iff_ne.mpr hx
    rw [List.lookup_cons, hne]
    simp [Ne.symm hx]

namespace Frame.Gains

variable {frame frame' frame'' : Frame} {types types' : List (String × Ty)}
  {symbols symbols' : List Symbol}

theorem refl (frame : Frame) : frame.Gains frame [] [] := ⟨by simp, by simp⟩

theorem trans (h : frame.Gains frame' types symbols) (h' : frame'.Gains frame'' types' symbols') :
    frame.Gains frame'' (types ++ types') (symbols ++ symbols') := by
  constructor
  · intro name ty
    rw [h'.type?_iff, h.type?_iff, List.mem_append, or_assoc]
  · intro name symbol
    rw [h'.value?_iff, h.value?_iff, List.mem_append, or_and_right, or_assoc]

theorem of_bind {symbol : Symbol} (hb : frame.bind symbol = .ok frame') :
    frame.Gains frame' [] [symbol] := by
  obtain ⟨hfree, rfl⟩ := Frame.bind_eq_ok_iff.mp hb
  refine ⟨by simp [Frame.type?], fun name s => ?_⟩
  rw [Frame.value?, lookup_cons_eq_some_iff hfree, List.mem_singleton]
  constructor
  · rintro (h | ⟨hx, rfl⟩)
    · exact Or.inl h
    · exact Or.inr ⟨rfl, hx⟩
  · rintro (h | ⟨rfl, hx⟩)
    · exact Or.inl h
    · exact Or.inr ⟨hx, rfl⟩

theorem of_bindType {name : String} {ty : Ty} (hb : frame.bindType name ty = .ok frame') :
    frame.Gains frame' [(name, ty)] [] := by
  obtain ⟨hfree, rfl⟩ := Frame.bindType_eq_ok_iff.mp hb
  refine ⟨fun x t => ?_, by simp [Frame.value?]⟩
  rw [Frame.type?, lookup_cons_eq_some_iff hfree, List.mem_singleton, Prod.mk.injEq, eq_comm (a := x),
    eq_comm (a := t)]
  rfl

/-- **A name that is not gained is bound as before**, or free as before. -/
theorem value?_eq (h : frame.Gains frame' types symbols) {name : String}
    (hn : ∀ s ∈ symbols, s.name ≠ name) : frame'.value? name = frame.value? name := by
  refine Option.ext fun symbol => ?_
  rw [h.value?_iff]
  refine or_iff_left ?_
  rintro ⟨hs, hname⟩
  exact hn symbol hs hname

theorem type?_eq (h : frame.Gains frame' types symbols) {name : String}
    (hn : ∀ binding ∈ types, binding.1 ≠ name) : frame'.type? name = frame.type? name := by
  refine Option.ext fun ty => ?_
  rw [h.type?_iff]
  refine or_iff_left ?_
  intro hb
  exact hn (name, ty) hb rfl

end Frame.Gains

/-! ## 2. The elements of an enum -/

/-- The symbols that the elements of an enum are bound to, each with its own value. -/
def EnumElement.symbols (enum : String) (elems : List (String × Int)) : List Symbol :=
  elems.map fun elem => .element ⟨elem.1, enum, elem.2⟩

/-- **The elements find no clash**: their names are free in the frame, and different. -/
def Frame.Fits (frame : Frame) (elems : List (String × Int)) : Prop :=
  (∀ elem ∈ elems, frame.value? elem.1 = none) ∧ (elems.map Prod.fst).Nodup

/-- **The element clashes after those before it**, and that is the clash. -/
inductive Frame.ClashesAfter (frame : Frame) (before : List (String × Int)) (elem : String × Int) :
    Clash → Prop
  /-- The frame had a binding of the name. -/
  | bound {old : Symbol} :
      frame.value? elem.1 = some old → ClashesAfter frame before elem ⟨elem.1, old.kind⟩
  /-- The name is that of an earlier element. -/
  | repeated : elem.1 ∈ before.map Prod.fst → ClashesAfter frame before elem ⟨elem.1, .element⟩

namespace Frame

variable {frame frame' : Frame} {before elems : List (String × Int)} {elem : String × Int}

theorem not_fits_iff : ¬ frame.Fits elems ↔
    (∃ elem ∈ elems, ∃ old, frame.value? elem.1 = some old) ∨ ¬ (elems.map Prod.fst).Nodup := by
  simp only [Frame.Fits, not_and_or, not_forall, ← ne_eq, Option.ne_none_iff_exists',
    exists_prop]

/-- One element more fits, or clashes. -/
theorem Fits.snoc_or_clashes (h : frame.Fits before) (elem : String × Int) :
    frame.Fits (before ++ [elem]) ∨ ∃ clash, frame.ClashesAfter before elem clash := by
  cases hv : frame.value? elem.1 with
  | some old => exact Or.inr ⟨_, .bound hv⟩
  | none =>
    by_cases hm : elem.1 ∈ before.map Prod.fst
    · exact Or.inr ⟨_, .repeated hm⟩
    · refine Or.inl ⟨?_, ?_⟩
      · intro e he
        rcases List.mem_append.mp he with he | he
        · exact h.1 e he
        · rw [List.mem_singleton.mp he]
          exact hv
      · rw [List.map_append, List.nodup_append']
        exact ⟨h.2, List.nodup_singleton _, List.disjoint_singleton.mpr hm⟩

/-- **Elements that do not fit have a first one that clashes.** -/
theorem exists_clash_of_not_fits (h : ¬ frame.Fits elems) :
    ∃ before elem after clash, elems = before ++ elem :: after ∧ frame.Fits before ∧
      frame.ClashesAfter before elem clash := by
  induction elems using List.reverseRecOn with
  | nil => exact absurd ⟨List.forall_mem_nil _, List.nodup_nil⟩ h
  | append_singleton elems last ih =>
    by_cases hf : frame.Fits elems
    · rcases hf.snoc_or_clashes last with hs | ⟨clash, hc⟩
      · exact absurd hs h
      · exact ⟨elems, last, [], clash, rfl, hf, hc⟩
    · obtain ⟨before, elem, after, clash, rfl, hb, hc⟩ := ih hf
      exact ⟨before, elem, after ++ [last], clash, by simp, hb, hc⟩

/-- **Elements that fit are bound**, and those after them come next. -/
theorem bindElements_of_fits (enum : String) (h : frame.Fits before)
    (after : List (String × Int)) :
    ∃ frame', frame.Gains frame' [] (EnumElement.symbols enum before) ∧
      frame.bindElements enum (before ++ after) = frame'.bindElements enum after := by
  induction before generalizing frame with
  | nil => exact ⟨frame, .refl frame, rfl⟩
  | cons elem before ih =>
    obtain ⟨hfree, hrest⟩ := List.forall_mem_cons.mp h.1
    obtain ⟨hnew, hd⟩ := List.nodup_cons.mp h.2
    obtain ⟨frame₁, hb⟩ : ∃ frame₁, frame.bind (.element ⟨elem.1, enum, elem.2⟩) = .ok frame₁ :=
      ⟨_, Frame.bind_eq_ok_iff.mpr ⟨hfree, rfl⟩⟩
    have hg : frame.Gains frame₁ [] [.element ⟨elem.1, enum, elem.2⟩] := .of_bind hb
    -- the other names are still free, as they are not the first one
    have hfits : frame₁.Fits before := by
      refine ⟨fun e he => (hg.value?_eq ?_).trans (hrest e he), hd⟩
      intro s hs hname
      obtain rfl := List.mem_singleton.mp hs
      have hname : elem.1 = e.1 := hname
      exact hnew (hname ▸ List.mem_map_of_mem he)
    obtain ⟨frame', hg', hbs⟩ := ih hfits
    refine ⟨frame', hg.trans hg', ?_⟩
    rw [List.cons_append, Frame.bindElements, hb]
    exact hbs

/-- An element that clashes after others clashes when they are bound. -/
theorem Gains.bind_eq_error {types : List (String × Ty)} {enum : String}
    (hg : frame.Gains frame' types (EnumElement.symbols enum before)) {clash : Clash}
    (h : frame.ClashesAfter before elem clash) (value : Int) :
    frame'.bind (.element ⟨elem.1, enum, value⟩) = .error clash := by
  rw [Frame.bind_eq_error_iff]
  cases h with
  | @bound old hold => exact ⟨old, (hg.value?_iff _ _).mpr (Or.inl hold), rfl⟩
  | repeated hm =>
    obtain ⟨e, he, hname⟩ := List.mem_map.mp hm
    refine ⟨.element ⟨e.1, enum, e.2⟩, (hg.value?_iff _ _).mpr (Or.inr ⟨?_, hname⟩), rfl⟩
    exact List.mem_map_of_mem he

end Frame

/-! ## 3. Enums -/

namespace Scope

variable {scope : Scope} {name : String} {before elems : List (String × Int)}

/-- What succeeds in all other cases fails just in the cases in which it fails. -/
theorem fails_iff {result : Except Clash Declared} {P : Prop}
    (hfail : P → ∃ clash, result = .error clash)
    (hok : ¬ P → ∃ declared, result = .ok declared) : (∃ clash, result = .error clash) ↔ P := by
  constructor
  · rintro ⟨clash, hc⟩
    by_contra hp
    obtain ⟨declared, hd⟩ := hok hp
    rw [hc] at hd
    cases hd
  · exact hfail

theorem succeeds_iff {result : Except Clash Declared} :
    (∃ declared, result = .ok declared) ↔ ¬ ∃ clash, result = .error clash := by
  cases result <;> simp

/-- The name of an enum is bound if it is free, then the elements that fit, and then it is for those
that come after. -/
theorem bindType_of_fits (hfree : scope.current.type? name = none)
    (h : scope.current.Fits before) (after : List (String × Int)) :
    ∃ frame frame', scope.current.bindType name (.enum name) = .ok frame ∧
      frame.bindElements name (before ++ after) = frame'.bindElements name after ∧
      scope.current.Gains frame' [(name, .enum name)] (EnumElement.symbols name before) := by
  obtain ⟨frame, hb⟩ : ∃ frame, scope.current.bindType name (.enum name) = .ok frame :=
    ⟨_, Frame.bindType_eq_ok_iff.mpr ⟨hfree, rfl⟩⟩
  have hg : scope.current.Gains frame [(name, .enum name)] [] := .of_bindType hb
  -- a type takes no value name
  have hfits : frame.Fits before :=
    ⟨fun elem he => (hg.value?_eq (List.forall_mem_nil _)).trans (h.1 elem he), h.2⟩
  obtain ⟨frame', hg', hbs⟩ := Frame.bindElements_of_fits name hfits after
  exact ⟨frame, frame', hb, hbs, hg.trans hg'⟩

/-- **An enum that finds no clash** is declared, with all its elements. -/
theorem declare_enum_of_fits (hfree : scope.current.type? name = none)
    (h : scope.current.Fits elems) :
    (scope.declare (.enum name elems)).2 = .ok (.type (.enum name)) ∧
      scope.Gains (scope.declare (.enum name elems)).1 [(name, .enum name)]
        (EnumElement.symbols name elems) := by
  obtain ⟨frame, frame', hb, hbs, hg⟩ := bindType_of_fits hfree h []
  rw [List.append_nil] at hbs
  have hd : scope.declare (.enum name elems) =
      ({ scope with current := frame' }, .ok (.type (.enum name))) := by
    simp only [Scope.declare, hb, hbs, Frame.bindElements]
  rw [hd]
  exact ⟨rfl, hg, rfl⟩

/-- **An enum that finds a clash** is left behind with the elements before it. -/
theorem declare_enum_of_clash (hfree : scope.current.type? name = none)
    (h : scope.current.Fits before) {elem : String × Int} {clash : Clash}
    (hc : scope.current.ClashesAfter before elem clash) (after : List (String × Int)) :
    (scope.declare (.enum name (before ++ elem :: after))).2 = .error clash ∧
      scope.Gains (scope.declare (.enum name (before ++ elem :: after))).1 [(name, .enum name)]
        (EnumElement.symbols name before) := by
  obtain ⟨frame, frame', hb, hbs, hg⟩ := bindType_of_fits hfree h (elem :: after)
  have he : frame'.bindElements name (elem :: after) = (frame', some clash) := by
    rw [Frame.bindElements, hg.bind_eq_error hc]
  have hd : scope.declare (.enum name (before ++ elem :: after)) =
      ({ scope with current := frame' }, .error clash) := by
    simp only [Scope.declare, hb, hbs, he]
  rw [hd]
  exact ⟨rfl, hg, rfl⟩

/-- An enum whose name is taken changes nothing. -/
theorem declare_enum_of_taken {old : Ty} (h : scope.current.type? name = some old)
    (elems : List (String × Int)) :
    scope.declare (.enum name elems) = (scope, .error ⟨name, .type⟩) := by
  have hb : scope.current.bindType name (.enum name) = .error ⟨name, .type⟩ :=
    Frame.bindType_eq_error_iff.mpr ⟨⟨old, h⟩, rfl⟩
  simp only [Scope.declare, hb]

theorem declare_enum_fails_iff :
    (∃ clash, (scope.declare (.enum name elems)).2 = .error clash) ↔
      (∃ old, scope.current.type? name = some old) ∨ ¬ scope.current.Fits elems := by
  refine fails_iff ?_ fun h => ?_
  · rintro (⟨old, ho⟩ | hf)
    · exact ⟨_, congrArg Prod.snd (declare_enum_of_taken ho elems)⟩
    · cases ht : scope.current.type? name with
      | some old => exact ⟨_, congrArg Prod.snd (declare_enum_of_taken ht elems)⟩
      | none =>
        obtain ⟨before, elem, after, clash, rfl, hb, hc⟩ := Frame.exists_clash_of_not_fits hf
        exact ⟨clash, (declare_enum_of_clash ht hb hc after).1⟩
  · obtain ⟨ht, hf⟩ := not_or.mp h
    exact ⟨_, (declare_enum_of_fits (Option.eq_none_iff_forall_ne_some.mpr (not_exists.mp ht))
      (not_not.mp hf)).1⟩

/-! ## 4. Symbols and aliases -/

theorem declare_symbol_of_free {symbol : Symbol}
    (h : scope.current.value? symbol.name = none) :
    (scope.declare (.symbol symbol)).2 = .ok (.symbol symbol) ∧
      scope.Gains (scope.declare (.symbol symbol)).1 [] [symbol] := by
  obtain ⟨frame, hb⟩ : ∃ frame, scope.current.bind symbol = .ok frame :=
    ⟨_, Frame.bind_eq_ok_iff.mpr ⟨h, rfl⟩⟩
  have hd : scope.declare (.symbol symbol) =
      ({ scope with current := frame }, .ok (.symbol symbol)) := by
    simp only [Scope.declare, hb]
  rw [hd]
  exact ⟨rfl, .of_bind hb, rfl⟩

theorem declare_symbol_of_taken {symbol old : Symbol}
    (h : scope.current.value? symbol.name = some old) :
    scope.declare (.symbol symbol) = (scope, .error ⟨symbol.name, old.kind⟩) := by
  have hb : scope.current.bind symbol = .error ⟨symbol.name, old.kind⟩ :=
    Frame.bind_eq_error_iff.mpr ⟨old, h, rfl⟩
  simp only [Scope.declare, hb]

theorem declare_symbol_fails_iff {symbol : Symbol} :
    (∃ clash, (scope.declare (.symbol symbol)).2 = .error clash) ↔
      ∃ old, scope.current.value? symbol.name = some old := by
  refine fails_iff ?_ fun h => ?_
  · rintro ⟨old, ho⟩
    exact ⟨_, congrArg Prod.snd (declare_symbol_of_taken ho)⟩
  · have hfree := Option.eq_none_iff_forall_ne_some.mpr (not_exists.mp h)
    exact ⟨_, (declare_symbol_of_free hfree).1⟩

theorem declare_alias_of_free {target : Ty} (h : scope.current.type? name = none) :
    (scope.declare (.alias name target)).2 = .ok (.type (.alias name target)) ∧
      scope.Gains (scope.declare (.alias name target)).1 [(name, .alias name target)] [] := by
  obtain ⟨frame, hb⟩ : ∃ frame, scope.current.bindType name (.alias name target) = .ok frame :=
    ⟨_, Frame.bindType_eq_ok_iff.mpr ⟨h, rfl⟩⟩
  have hd : scope.declare (.alias name target) =
      ({ scope with current := frame }, .ok (.type (.alias name target))) := by
    simp only [Scope.declare, hb]
  rw [hd]
  exact ⟨rfl, .of_bindType hb, rfl⟩

theorem declare_alias_of_taken {old : Ty} (h : scope.current.type? name = some old) (target : Ty) :
    scope.declare (.alias name target) = (scope, .error ⟨name, .type⟩) := by
  have hb : scope.current.bindType name (.alias name target) = .error ⟨name, .type⟩ :=
    Frame.bindType_eq_error_iff.mpr ⟨⟨old, h⟩, rfl⟩
  simp only [Scope.declare, hb]

theorem declare_alias_fails_iff {target : Ty} :
    (∃ clash, (scope.declare (.alias name target)).2 = .error clash) ↔
      ∃ old, scope.current.type? name = some old := by
  refine fails_iff ?_ fun h => ?_
  · rintro ⟨old, ho⟩
    exact ⟨_, congrArg Prod.snd (declare_alias_of_taken ho target)⟩
  · have hfree := Option.eq_none_iff_forall_ne_some.mpr (not_exists.mp h)
    exact ⟨_, (declare_alias_of_free hfree).1⟩

/-! ## 5. The result -/

/-- **What declaring changes.**  In any scope:

* a symbol cannot be declared if the current frame binds its name to a value, and an alias if it
  binds its name to a type.  Then the clash has the name and the kind of what is there, and the scope
  stays as it is; otherwise the current frame gains this one binding, and nothing else changes;
* an enum cannot be declared if the current frame binds its name to a type, and then the scope stays
  as it is; nor if the frame binds the name of an element to a value, or two elements have one name.
  Then there is a first element that clashes, and the current frame gains the enum and the elements
  before it, each with its own value, and nothing else changes. -/
theorem declarations_are_exact (scope : Scope) :
    (∀ symbol : Symbol,
      let result := scope.declare (.symbol symbol)
      ((∃ clash, result.2 = .error clash) ↔
        ∃ old, scope.current.value? symbol.name = some old) ∧
      (∀ old, scope.current.value? symbol.name = some old →
        result = (scope, .error ⟨symbol.name, old.kind⟩)) ∧
      (scope.current.value? symbol.name = none →
        result.2 = .ok (.symbol symbol) ∧ scope.Gains result.1 [] [symbol])) ∧
    (∀ (name : String) (target : Ty),
      let result := scope.declare (.alias name target)
      ((∃ clash, result.2 = .error clash) ↔ ∃ old, scope.current.type? name = some old) ∧
      (∀ old, scope.current.type? name = some old → result = (scope, .error ⟨name, .type⟩)) ∧
      (scope.current.type? name = none →
        result.2 = .ok (.type (.alias name target)) ∧
          scope.Gains result.1 [(name, .alias name target)] [])) ∧
    ∀ (name : String) (elems : List (String × Int)),
      let result := scope.declare (.enum name elems)
      ((∃ clash, result.2 = .error clash) ↔
        (∃ old, scope.current.type? name = some old) ∨
          (∃ elem ∈ elems, ∃ old, scope.current.value? elem.1 = some old) ∨
          ¬ (elems.map Prod.fst).Nodup) ∧
      (∀ old, scope.current.type? name = some old → result = (scope, .error ⟨name, .type⟩)) ∧
      (scope.current.type? name = none → scope.current.Fits elems →
        result.2 = .ok (.type (.enum name)) ∧
          scope.Gains result.1 [(name, .enum name)] (EnumElement.symbols name elems)) ∧
      (scope.current.type? name = none → ¬ scope.current.Fits elems →
        ∃ before elem after clash, elems = before ++ elem :: after ∧
          scope.current.Fits before ∧ scope.current.ClashesAfter before elem clash ∧
          result.2 = .error clash ∧
          scope.Gains result.1 [(name, .enum name)] (EnumElement.symbols name before)) := by
  refine ⟨fun symbol => ?symbols, fun name target => ?aliases, fun name elems => ?enums⟩
  case symbols =>
    exact ⟨declare_symbol_fails_iff, fun old => declare_symbol_of_taken, declare_symbol_of_free⟩
  case aliases =>
    exact ⟨declare_alias_fails_iff, fun old h => declare_alias_of_taken h target,
      declare_alias_of_free⟩
  case enums =>
    intro result
    refine ⟨?_, fun old h => declare_enum_of_taken h elems, declare_enum_of_fits, ?_⟩
    · rw [← Frame.not_fits_iff]
      exact declare_enum_fails_iff
    · intro hfree hf
      obtain ⟨before, elem, after, clash, rfl, hb, hc⟩ := Frame.exists_clash_of_not_fits hf
      obtain ⟨he, hg⟩ := declare_enum_of_clash hfree hb hc after
      exact ⟨before, elem, after, clash, rfl, hb, hc, he, hg⟩

/-- In a block where `x` is a variable and `T` a type, the enum `E` breaks off at `x`, with the element
before it bound; `T` is no name for an alias, but `x` is, and `T` is a name for an event. -/
theorem declarations_are_exact_in_block :
    let x : Symbol := .var ⟨"x", .int, none⟩
    let outer := (Scope.initial.declare (.symbol (.machine ⟨"a", .null⟩))).1
    let inner := (outer.push.declare (.symbol x)).1
    let scope := (inner.declare (.alias "T" .float)).1
    let elems : List (String × Int) := [("a", 1), ("x", 2), ("b", 3)]
    scope.declare (.alias "T" .int) = (scope, .error ⟨"T", .type⟩) ∧
    scope.Gains (scope.declare (.alias "x" .int)).1 [("x", .alias "x" .int)] [] ∧
    scope.Gains (scope.declare (.symbol (.event ⟨"T", none⟩))).1 [] [.event ⟨"T", none⟩] ∧
    scope.declare (.symbol (.event ⟨"x", none⟩)) = (scope, .error ⟨"x", .var⟩) ∧
    ¬ scope.current.Fits elems ∧
    ∃ before elem after clash, elems = before ++ elem :: after ∧
      scope.current.Fits before ∧ scope.current.ClashesAfter before elem clash ∧
      (scope.declare (.enum "E" elems)).2 = .error clash ∧
      scope.Gains (scope.declare (.enum "E" elems)).1 [("E", .enum "E")]
        (EnumElement.symbols "E" before) := by
  intro x outer inner scope elems
  obtain ⟨hsymbol, halias, henum⟩ := declarations_are_exact scope
  have hx : scope.current.value? "x" = some x := by decide
  have hfits : ¬ scope.current.Fits elems := by
    rintro ⟨hfree, -⟩
    have hfree : scope.current.value? "x" = none := hfree ("x", 2) (by decide)
    rw [hx] at hfree
    cases hfree
  exact ⟨(halias "T" .int).2.1 (.alias "T" .float) (by decide),
    ((halias "x" .int).2.2 (by decide)).2,
    ((hsymbol (.event ⟨"T", none⟩)).2.2 (by decide)).2,
    (hsymbol (.event ⟨"x", none⟩)).2.1 x hx, hfits,
    (henum "E" elems).2.2.2 (by decide) hfits⟩

end Scope

end MachineTyping
