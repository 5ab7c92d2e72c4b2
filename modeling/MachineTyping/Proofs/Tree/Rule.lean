/-
# What the rules conclude

A rule is told the span of a phrase and its checked parts, and either makes a node or refuses.
This module says of each rule that makes a node by looking at types **when it makes one and which
one**: the node of that shape, if there is a type with which it is lawful, and no other.  So
`Rule.unary_eq_ok_iff` and its companions are all that the soundness and the completeness of the
checker need to know of the rules, in one statement for both directions.

Rules that resolve names, and `to`, which may give its operand back, are described by what they
look up (section 4).
-/
import MachineTyping.Proofs.Tree.Lawful

namespace MachineTyping

/-! ## 1. Verdicts -/

/-- A sequence succeeds when both parts do. -/
theorem Verdict.bind_eq_ok_iff {α β : Type} {x : Verdict α} {f : α → Verdict β} {b : β} :
    (x >>= f) = .ok b ↔ ∃ a, x = .ok a ∧ f a = .ok b := by
  cases x with
  | error e =>
    constructor
    · intro h
      cases h
    · rintro ⟨a, ha, -⟩
      cases ha
  | ok a =>
    constructor
    · intro h
      exact ⟨a, rfl, h⟩
    · rintro ⟨a', ha, h⟩
      cases ha
      exact h

/-- A guarded conclusion is drawn when the guard holds. -/
theorem Verdict.guard_eq_ok_iff {α : Type} {c : Prop} [Decidable c] {a b : α} {e : TypeError} :
    (if c then .ok a else .error e : Verdict α) = .ok b ↔ c ∧ b = a := by
  by_cases h : c
  · rw [if_pos h, Except.ok.injEq]
    exact ⟨fun hab => ⟨h, hab.symm⟩, fun hb => hb.2.symm⟩
  · rw [if_neg h]
    exact ⟨fun he => (nomatch he), fun hb => absurd hb.1 h⟩

/-! ## 2. The tests of the rules -/

theorem Ty.isOf_iff {t : Ty} {kind : Kind} : t.isOf kind = true ↔ t.kind = kind := by
  simp [Ty.isOf]

theorem Ty.isNumeric_iff {t : Ty} : t.isNumeric = true ↔ t.kind = .int ∨ t.kind = .float := by
  simp [Ty.isNumeric, Ty.isOf]

theorem Ty.numericPair_iff {a b : Ty} : a.numericPair b = true ↔ a.SameNumber b := by
  simp only [Ty.numericPair, Bool.and_eq_true, Ty.isNumeric_iff, beq_iff_eq, Ty.SameNumber]
  constructor
  · rintro ⟨ha | ha, hab⟩
    · exact Or.inl ⟨ha, hab ▸ ha⟩
    · exact Or.inr ⟨ha, hab ▸ ha⟩
  · rintro (⟨ha, hb⟩ | ⟨ha, hb⟩)
    · exact ⟨Or.inl ha, ha.trans hb.symm⟩
    · exact ⟨Or.inr ha, ha.trans hb.symm⟩

theorem Ty.comparable_iff {a b : Ty} : a.comparable b = true ↔ a.Comparable b := by
  simp [Ty.comparable, Ty.Comparable]

/-- The rows of the table in which `to` does nothing. -/
theorem Ty.conversion?_eq_identity_iff {source target : Ty} :
    source.conversion? target = some .identity ↔ source.SameScalar target := by
  unfold Ty.conversion? Ty.SameScalar
  cases source.canonical <;> cases target.canonical <;> simp [Ty.conversionTable]
  exact eq_comm

/-- The rows in which it converts. -/
theorem Ty.conversion?_eq_convert_iff {source target : Ty} :
    source.conversion? target = some .convert ↔ source.ConvertsTo target := by
  unfold Ty.conversion? Ty.ConvertsTo
  cases source.canonical <;> cases target.canonical <;> simp [Ty.conversionTable]

/-- No pair of types is in both. -/
theorem Ty.ConvertsTo.not_sameScalar {source target : Ty} (h : source.ConvertsTo target) :
    ¬ source.SameScalar target := by
  intro hs
  rw [← Ty.conversion?_eq_convert_iff] at h
  rw [← Ty.conversion?_eq_identity_iff, h] at hs
  simp at hs

/-- The kind of a canonical type is its head. -/
theorem Ty.kind_of_canonical {t u : Ty} (h : t.canonical = u) : t.kind = u.kind := by
  rw [← h, Ty.kind_canonical]

/-! ## 3. Operators and parts of values -/

section Operands

variable {span : Span} {t : Typed}

theorem Rule.unary_eq_ok_iff {op : UnaryOp} {operand : Typed} :
    Rule.unary span op operand = .ok t ↔
      ∃ ty, t = .node span ty (.unary op operand) ∧ t.Lawful := by
  cases op with
  | neg =>
    simp only [Rule.unary, Verdict.guard_eq_ok_iff, Ty.isNumeric_iff]
    constructor
    · rintro ⟨hk, rfl⟩
      exact ⟨_, rfl, .neg hk⟩
    · rintro ⟨ty, rfl, hl⟩
      cases hl with
      | neg hk => exact ⟨hk, rfl⟩
  | not =>
    simp only [Rule.unary, Verdict.guard_eq_ok_iff, Ty.isOf_iff]
    constructor
    · rintro ⟨hk, rfl⟩
      exact ⟨_, rfl, .not hk⟩
    · rintro ⟨ty, rfl, hl⟩
      cases hl with
      | not hk => exact ⟨hk, rfl⟩

theorem Rule.hasKey_eq_ok_iff {key map : Typed} :
    Rule.hasKey span key map = .ok t ↔
      ∃ ty, t = .node span ty (.hasKey key map) ∧ t.Lawful := by
  unfold Rule.hasKey
  constructor
  · intro h
    split at h
    · rename_i hm
      obtain ⟨hk, rfl⟩ := Verdict.guard_eq_ok_iff.mp h
      exact ⟨_, rfl, .hasKey hm hk⟩
    · cases h
  · rintro ⟨ty, rfl, hl⟩
    cases hl with
    | hasKey hm hk =>
      rw [hm]
      exact Verdict.guard_eq_ok_iff.mpr ⟨hk, rfl⟩

/-- Membership makes a node of its own, the other operators a binary node. -/
theorem Rule.binary_member {lhs rhs : Typed} :
    Rule.binary span .member lhs rhs = Rule.hasKey span lhs rhs := rfl

theorem Rule.binary_eq_ok_iff {op : BinaryOp} {lhs rhs : Typed} (ho : op ≠ .member) :
    Rule.binary span op lhs rhs = .ok t ↔
      ∃ ty, t = .node span ty (.binary op lhs rhs) ∧ t.Lawful := by
  unfold Rule.binary
  constructor
  · intro h
    split at h
    · rename_i hf
      exact absurd hf (by cases op <;> simp_all [BinaryOp.family])
    · rename_i hf
      obtain ⟨hn, rfl⟩ := Verdict.guard_eq_ok_iff.mp h
      exact ⟨_, rfl, .arithmetic hf (Ty.numericPair_iff.mp hn)⟩
    · rename_i hf
      obtain ⟨hn, rfl⟩ := Verdict.guard_eq_ok_iff.mp h
      exact ⟨_, rfl, .comparison hf (Ty.numericPair_iff.mp hn)⟩
    · rename_i hf
      obtain ⟨hc, rfl⟩ := Verdict.guard_eq_ok_iff.mp h
      exact ⟨_, rfl, .equality hf (Ty.comparable_iff.mp hc)⟩
    · rename_i hf
      split at h
      · rename_i hl
        obtain ⟨hr, rfl⟩ := Verdict.guard_eq_ok_iff.mp h
        exact ⟨_, rfl, .logical hf (Ty.isOf_iff.mp hl) (Ty.isOf_iff.mp hr)⟩
      · cases h
  · rintro ⟨ty, rfl, hl⟩
    cases hl with
    | arithmetic hf hn =>
      rw [hf]
      exact Verdict.guard_eq_ok_iff.mpr ⟨Ty.numericPair_iff.mpr hn, rfl⟩
    | comparison hf hn =>
      rw [hf]
      exact Verdict.guard_eq_ok_iff.mpr ⟨Ty.numericPair_iff.mpr hn, rfl⟩
    | equality hf hc =>
      rw [hf]
      exact Verdict.guard_eq_ok_iff.mpr ⟨Ty.comparable_iff.mpr hc, rfl⟩
    | logical hf hl hr =>
      rw [hf]
      simp only [Ty.isOf_iff.mpr hl, Ty.isOf_iff.mpr hr, if_true]

theorem Rule.component_eq_ok_iff {base : Typed} {index : String} :
    Rule.component span base index = .ok t ↔
      ∃ position ty, naturalOfChars? index.toList = some position ∧
        t = .node span ty (.component base position) ∧ t.Lawful := by
  unfold Rule.component
  constructor
  · intro h
    split at h
    · rename_i elems hb
      split at h
      · cases h
      · rename_i position hp
        split at h
        · cases h
        · rename_i elem he
          cases h
          exact ⟨position, elem, hp, rfl, .component hb he⟩
    · cases h
  · rintro ⟨position, ty, hp, rfl, hl⟩
    cases hl with
    | component hb he => simp only [hb, hp, he]

theorem Rule.field_eq_ok_iff {base : Typed} {name : String} :
    Rule.field span base name = .ok t ↔
      ∃ ty, t = .node span ty (.field base name) ∧ t.Lawful := by
  unfold Rule.field
  constructor
  · intro h
    split at h
    · rename_i fields hb
      split at h
      · cases h
      · rename_i ty hf
        cases h
        exact ⟨ty, rfl, .field hb hf⟩
    · cases h
  · rintro ⟨ty, rfl, hl⟩
    cases hl with
    | field hb hf => simp only [hb, hf]

/-- What is made of `e[i]` depends on the kind of `e`. -/
theorem Rule.index_eq_ok_iff {base index : Typed} :
    Rule.index span base index = .ok t ↔
      ∃ ty, (base.ty.kind = .seq ∧ t = .node span ty (.seqItem base index) ∨
        base.ty.kind = .map ∧ t = .node span ty (.mapItem base index)) ∧ t.Lawful := by
  unfold Rule.index
  constructor
  · intro h
    split at h
    · rename_i elem hb
      obtain ⟨hi, rfl⟩ := Verdict.guard_eq_ok_iff.mp h
      exact ⟨elem, Or.inl ⟨Ty.kind_of_canonical hb, rfl⟩, .seqItem hb (Ty.isOf_iff.mp hi)⟩
    · rename_i key value hb
      obtain ⟨hk, rfl⟩ := Verdict.guard_eq_ok_iff.mp h
      exact ⟨value, Or.inr ⟨Ty.kind_of_canonical hb, rfl⟩, .mapItem hb hk⟩
    · cases h
  · rintro ⟨ty, ⟨-, rfl⟩ | ⟨-, rfl⟩, hl⟩
    · cases hl with
      | seqItem hb hi =>
        rw [hb]
        exact Verdict.guard_eq_ok_iff.mpr ⟨Ty.isOf_iff.mpr hi, rfl⟩
    · cases hl with
      | mapItem hb hk =>
        rw [hb]
        exact Verdict.guard_eq_ok_iff.mpr ⟨hk, rfl⟩

theorem Rule.keys_eq_ok_iff {map : Typed} :
    Rule.keys span map = .ok t ↔ ∃ ty, t = .node span ty (.keys map) ∧ t.Lawful := by
  unfold Rule.keys
  constructor
  · intro h
    split at h
    · rename_i hm
      cases h
      exact ⟨_, rfl, .keys hm⟩
    · cases h
  · rintro ⟨ty, rfl, hl⟩
    cases hl with
    | keys hm => simp only [hm]

theorem Rule.values_eq_ok_iff {map : Typed} :
    Rule.values span map = .ok t ↔ ∃ ty, t = .node span ty (.values map) ∧ t.Lawful := by
  unfold Rule.values
  constructor
  · intro h
    split at h
    · rename_i hm
      cases h
      exact ⟨_, rfl, .values hm⟩
    · cases h
  · rintro ⟨ty, rfl, hl⟩
    cases hl with
    | values hm => simp only [hm]

theorem Rule.sizeof_eq_ok_iff {collection : Typed} :
    Rule.sizeof span collection = .ok t ↔
      ∃ ty, t = .node span ty (.sizeof collection) ∧ t.Lawful := by
  simp only [Rule.sizeof, Verdict.guard_eq_ok_iff, Bool.or_eq_true, Ty.isOf_iff]
  constructor
  · rintro ⟨hk, rfl⟩
    exact ⟨_, rfl, .sizeof hk⟩
  · rintro ⟨ty, rfl, hl⟩
    cases hl with
    | sizeof hk => exact ⟨hk, rfl⟩

theorem Rule.cast_eq_ok_iff {operand : Typed} {target : Ty} :
    Rule.cast span operand target = .ok t ↔
      t = .node span target (.cast operand) ∧ t.Lawful := by
  simp only [Rule.cast, Verdict.guard_eq_ok_iff, Ty.comparable_iff]
  constructor
  · rintro ⟨hc, rfl⟩
    exact ⟨rfl, .cast hc⟩
  · rintro ⟨rfl, hl⟩
    cases hl with
    | cast hc => exact ⟨hc, rfl⟩

/-- `to` gives the operand back, or makes a node. -/
theorem Rule.coerce_eq_ok_iff {operand : Typed} {target : Ty} :
    Rule.coerce span operand target = .ok t ↔
      operand.ty.SameScalar target ∧ t = operand ∨
      t = .node span target (.coerce operand) ∧ t.Lawful := by
  unfold Rule.coerce
  constructor
  · intro h
    split at h
    · rename_i hc
      cases h
      exact Or.inl ⟨Ty.conversion?_eq_identity_iff.mp hc, rfl⟩
    · rename_i hc
      cases h
      exact Or.inr ⟨rfl, .coerce (Ty.conversion?_eq_convert_iff.mp hc)⟩
    · cases h
  · rintro (⟨hs, rfl⟩ | ⟨rfl, hl⟩)
    · rw [Ty.conversion?_eq_identity_iff.mpr hs]
    · cases hl with
      | coerce hc => rw [Ty.conversion?_eq_convert_iff.mpr hc]

end Operands

/-! ## 4. Names -/

section Lookup

variable {scope : Scope} {name : String}

theorem Scope.lookupVar_eq_some_iff {v : Variable} :
    scope.lookupVar name = some v ↔ scope.lookup name = some (.var v) := by
  unfold Scope.lookupVar
  split <;> simp_all

theorem Scope.lookupFunction_eq_some_iff {f : Function} :
    scope.lookupFunction name = some f ↔ scope.lookup name = some (.function f) := by
  unfold Scope.lookupFunction
  split <;> simp_all

theorem Scope.lookupMachine_eq_some_iff {m : Machine} :
    scope.lookupMachine name = some m ↔ scope.lookup name = some (.machine m) := by
  unfold Scope.lookupMachine
  split <;> simp_all

theorem Scope.lookupElement_eq_some_iff {e : EnumElement} :
    scope.lookupElement name = some e ↔ scope.lookup name = some (.element e) := by
  unfold Scope.lookupElement
  split <;> simp_all

theorem Scope.lookupEvent_eq_some_iff {e : Event} :
    scope.lookupEvent name = some e ↔ scope.lookup name = some (.event e) := by
  unfold Scope.lookupEvent
  split <;> simp_all

end Lookup

section Names

variable {scope : Scope} {span : Span} {t : Typed}

theorem Rule.var_eq_ok_iff {name : String} :
    Rule.var scope span name = .ok t ↔
      ∃ v, scope.lookup name = some (.var v) ∧ t = .node span v.ty (.var v) := by
  unfold Rule.var
  constructor
  · intro h
    split at h
    · rename_i v hv
      cases h
      exact ⟨v, Scope.lookupVar_eq_some_iff.mp hv, rfl⟩
    · cases h
  · rintro ⟨v, hv, rfl⟩
    rw [Scope.lookupVar_eq_some_iff.mpr hv]

theorem Rule.linear_eq_ok_iff {mode : LinearMode} {name : String} :
    Rule.linear scope span mode name = .ok t ↔
      ∃ v, scope.lookup name = some (.var v) ∧ t = .node span v.ty (.linear mode v) := by
  unfold Rule.linear
  constructor
  · intro h
    split at h
    · rename_i v hv
      cases h
      exact ⟨v, Scope.lookupVar_eq_some_iff.mp hv, rfl⟩
    · cases h
  · rintro ⟨v, hv, rfl⟩
    rw [Scope.lookupVar_eq_some_iff.mpr hv]

/-- A bare name is what its innermost binding makes of it. -/
theorem Rule.name_eq_ok_iff {name : String} :
    Rule.name scope span name = .ok t ↔
      (∃ v, scope.lookup name = some (.var v) ∧ t = .node span v.ty (.var v)) ∨
      (∃ e, scope.lookup name = some (.element e) ∧ t = .node span (.enum e.enum) (.element e)) ∨
      ∃ e, scope.lookup name = some (.event e) ∧ t = .node span .event (.event e) := by
  unfold Rule.name
  constructor
  · intro h
    split at h
    · rename_i v hv
      cases h
      exact Or.inl ⟨v, hv, rfl⟩
    · rename_i e he
      cases h
      exact Or.inr (Or.inl ⟨e, he, rfl⟩)
    · rename_i e he
      cases h
      exact Or.inr (Or.inr ⟨e, he, rfl⟩)
    · cases h
  · rintro (⟨v, hv, rfl⟩ | ⟨e, he, rfl⟩ | ⟨e, he, rfl⟩)
    · rw [hv]
    · rw [he]
      rfl
    · rw [he]

theorem Rule.halt_eq_ok_iff :
    Rule.halt scope span = .ok t ↔
      ∃ e, scope.lookup Event.haltName = some (.event e) ∧ t = .node span .event (.event e) := by
  unfold Rule.halt
  constructor
  · intro h
    split at h
    · rename_i e he
      cases h
      exact ⟨e, Scope.lookupEvent_eq_some_iff.mp he, rfl⟩
    · cases h
  · rintro ⟨e, he, rfl⟩
    rw [Scope.lookupEvent_eq_some_iff.mpr he]

theorem Rule.self_eq_ok_iff {owner : Option Machine} :
    Rule.self owner span = .ok t ↔
      ∃ m, owner = some m ∧ t = .node span .machine (.self m) := by
  cases owner with
  | none =>
    constructor
    · intro h
      cases h
    · rintro ⟨m, hm, -⟩
      cases hm
  | some m =>
    constructor
    · intro h
      cases h
      exact ⟨m, rfl, rfl⟩
    · rintro ⟨m', hm, rfl⟩
      cases hm
      rfl

/-- A call is entered if the name is a function's and the number of arguments is right. -/
theorem Rule.callee_eq_ok_iff {name : String} {count : Nat} {f : Function} :
    Rule.callee scope span name count = .ok f ↔
      scope.lookup name = some (.function f) ∧ count = f.params.length := by
  unfold Rule.callee
  constructor
  · intro h
    split at h
    · cases h
    · rename_i g hg
      obtain ⟨hc, rfl⟩ := Verdict.guard_eq_ok_iff.mp h
      exact ⟨Scope.lookupFunction_eq_some_iff.mp hg, hc⟩
  · rintro ⟨hf, hc⟩
    rw [Scope.lookupFunction_eq_some_iff.mpr hf]
    exact Verdict.guard_eq_ok_iff.mpr ⟨hc, rfl⟩

theorem Rule.constructor_eq_ok_iff {name : String} {m : Machine} :
    Rule.constructor scope span name = .ok m ↔ scope.lookup name = some (.machine m) := by
  unfold Rule.constructor
  rw [← Scope.lookupMachine_eq_some_iff]
  cases scope.lookupMachine name with
  | none => simp
  | some m' => simp

end Names

/-! ## 5. Arguments -/

theorem Typed.handed_append (first second : List Typed) :
    Typed.handed (first ++ second) = Typed.handed first ++ Typed.handed second :=
  List.filterMap_append

theorem Typed.handed_of_none {arg : Typed} (h : arg.handover? = none) : Typed.handed [arg] = [] := by
  simp [Typed.handed, h]

theorem Typed.handed_of_some {arg : Typed} {mode : LinearMode} {v : Variable}
    (h : arg.handover? = some (mode, v)) : Typed.handed [arg] = [v.name] := by
  simp [Typed.handed, h]

/-- An argument hands over one variable or none. -/
theorem Typed.handed_cons (arg : Typed) (args : List Typed) :
    Typed.handed (arg :: args) = Typed.handed [arg] ++ Typed.handed args :=
  Typed.handed_append [arg] args

theorem Rule.relinquish_eq_ok_iff {taken taken' : List String} {arg : Typed} :
    Rule.relinquish taken arg = .ok taken' ↔
      (∀ x ∈ Typed.handed [arg], x ∉ taken) ∧ taken' = Typed.handed [arg] ++ taken := by
  unfold Rule.relinquish
  cases hh : arg.handover? with
  | none =>
    rw [Typed.handed_of_none hh]
    simp [eq_comm]
  | some handover =>
    obtain ⟨mode, v⟩ := handover
    rw [Typed.handed_of_some hh]
    by_cases hv : v.name ∈ taken
    · simp [hv]
    · simp [hv, eq_comm]

theorem Rule.passes_iff {param : Parameter} {arg : Typed} :
    Rule.passes param.ty arg = true ↔ param.Takes arg := by
  unfold Rule.passes Parameter.Takes
  split
  · rename_i v hv
    rw [Bool.and_eq_true]
    constructor
    · rintro ⟨hs, ha⟩
      exact ⟨ha, fun _ _ => hs⟩
    · rintro ⟨ha, hs⟩
      exact ⟨hs v hv, ha⟩
  · rename_i hn
    constructor
    · intro ha
      exact ⟨ha, fun v hv => absurd hv (hn v)⟩
    · intro h
      exact h.1

/-- Arguments pass when each of them does.  The rule itself does not look at their number, which
was asked for before. -/
theorem Rule.passAll_eq_ok_iff : ∀ {params : List Parameter} {args : List Typed},
    args.length = params.length →
      (Rule.passAll params args = .ok () ↔ List.Forall₂ Parameter.Takes params args)
  | [], [], _ => by simp [Rule.passAll]
  | param :: params, arg :: args, h => by
    rw [List.length_cons, List.length_cons, Nat.add_right_cancel_iff] at h
    rw [List.forall₂_cons, ← Rule.passAll_eq_ok_iff h, ← Rule.passes_iff]
    rw [Rule.passAll]
    cases Rule.passes param.ty arg <;> simp

theorem Rule.fillAll_eq_ok_iff : ∀ {slots : List Ty} {args : List Typed},
    slots.length = args.length →
      (Rule.fillAll slots args = .ok () ↔
        List.Forall₂ (fun slot arg => slot.accepts arg.ty = true) slots args)
  | [], [], _ => by simp [Rule.fillAll]
  | slot :: slots, arg :: args, h => by
    rw [List.length_cons, List.length_cons, Nat.add_right_cancel_iff] at h
    rw [List.forall₂_cons, ← Rule.fillAll_eq_ok_iff h]
    rw [Rule.fillAll]
    cases slot.accepts arg.ty <;> simp

/-! ## 6. Payloads -/

/-- Only tuples have slots, and they have one for each element. -/
theorem Rule.slots?_eq_some_iff {payload : Ty} {slots : List Ty} :
    Rule.slots? payload = some slots ↔
      payload.canonical = .tuple slots ∨
      ∃ fields, payload.canonical = .named fields ∧ slots = fields.map Prod.snd := by
  unfold Rule.slots?
  cases payload.canonical <;> simp [eq_comm]

/-- Several arguments fill the slots of a tuple, position by position. -/
theorem Rule.payload_many_iff {payload : Ty} {span : Span} {args : List Typed}
    (h : 2 ≤ args.length) :
    Rule.payload payload span args = .ok () ↔
      ∃ slots, Rule.slots? payload = some slots ∧
        List.Forall₂ (fun slot arg => slot.accepts arg.ty = true) slots args := by
  match args, h with
  | first :: second :: rest, _ =>
    simp only [Rule.payload]
    constructor
    · intro h
      split at h
      · cases h
      · rename_i slots hs
        split at h
        · rename_i hl
          exact ⟨slots, hs, (Rule.fillAll_eq_ok_iff hl).mp h⟩
        · cases h
    · rintro ⟨slots, hs, hf⟩
      simp only [hs]
      rw [if_pos hf.length_eq]
      exact (Rule.fillAll_eq_ok_iff hf.length_eq).mpr hf

theorem Rule.payload_eq_ok_iff {payload : Ty} {span : Span} {args : List Typed} :
    Rule.payload payload span args = .ok () ↔ payload.SuppliedBy args := by
  match args with
  | [] =>
    rw [Rule.payload, Verdict.guard_eq_ok_iff]
    constructor
    · rintro ⟨hn, -⟩
      exact .nothing hn
    · intro h
      cases h with
      | nothing hn => exact ⟨hn, rfl⟩
      | elements _ hl _ => simp at hl
      | fields _ hl _ => simp at hl
  | [arg] =>
    rw [Rule.payload, Rule.fillAll_eq_ok_iff rfl]
    constructor
    · intro h
      rw [List.forall₂_cons] at h
      exact .whole h.1
    · intro h
      cases h with
      | whole ha => exact .cons ha .nil
      | elements _ hl _ => simp at hl
      | fields _ hl _ => simp at hl
  | first :: second :: rest =>
    have hl : 2 ≤ (first :: second :: rest).length := by simp
    rw [Rule.payload_many_iff hl]
    constructor
    · rintro ⟨slots, hs, hf⟩
      rcases Rule.slots?_eq_some_iff.mp hs with hp | ⟨fields, hp, rfl⟩
      · exact .elements hp hl hf
      · exact .fields hp hl (List.forall₂_map_left_iff.mp hf)
    · intro h
      cases h with
      | elements hp _ hf => exact ⟨_, Rule.slots?_eq_some_iff.mpr (Or.inl hp), hf⟩
      | fields hp _ hf =>
        exact ⟨_, Rule.slots?_eq_some_iff.mpr (Or.inr ⟨_, hp, rfl⟩),
          List.forall₂_map_left_iff.mpr hf⟩

/-! ## 7. Calls and constructors -/

/-- With the right number of arguments, a call is made when each of them may be passed. -/
theorem Rule.call_eq_ok_iff {span : Span} {f : Function} {args : List Typed} {t : Typed}
    (h : args.length = f.params.length) :
    Rule.call span f args = .ok t ↔
      List.Forall₂ Parameter.Takes f.params args ∧ t = .node span f.result (.call f args) := by
  unfold Rule.call
  rw [Verdict.bind_eq_ok_iff, ← Rule.passAll_eq_ok_iff h]
  constructor
  · rintro ⟨⟨⟩, hp, ht⟩
    cases ht
    exact ⟨hp, rfl⟩
  · rintro ⟨hp, rfl⟩
    exact ⟨(), hp, rfl⟩

theorem Rule.new_eq_ok_iff {span : Span} {m : Machine} {args : List Typed} {t : Typed} :
    Rule.new span m args = .ok t ↔
      m.payload.SuppliedBy args ∧ t = .node span .machine (.new m args) := by
  unfold Rule.new
  rw [Verdict.bind_eq_ok_iff, ← Rule.payload_eq_ok_iff]
  constructor
  · rintro ⟨⟨⟩, hp, ht⟩
    cases ht
    exact ⟨hp, rfl⟩
  · rintro ⟨hp, rfl⟩
    exact ⟨(), hp, rfl⟩

end MachineTyping
