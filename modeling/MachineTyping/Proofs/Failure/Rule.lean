/-
# What the rules refuse

A rule that does not make a node says what is wrong.  This module says of each rule **when it
refuses and what it then reports**, fault and span, in one statement for each
(`Rule.hasKey_eq_error_iff` and its companions).  They are the other halves of the statements on
what the rules conclude.

Where a rule asks for several things the statement shows their order: a later refusal has the
earlier conditions among its own.  For arguments the order is left to right, so that what is
reported is the first argument that does not fit (`Rule.passAll_eq_error_iff`).
-/
import MachineTyping.Proofs.Tree.Rule
import MachineTyping.Proofs.Type.Order

namespace MachineTyping

/-! ## 1. Verdicts -/

/-- A sequence fails in its first part, or in the second after the first. -/
theorem Verdict.bind_eq_error_iff {α β : Type} {x : Verdict α} {f : α → Verdict β}
    {e : TypeError} :
    (x >>= f) = .error e ↔ x = .error e ∨ ∃ a, x = .ok a ∧ f a = .error e := by
  cases x with
  | error e' =>
    have hb : (Except.error e' >>= f) = .error e' := rfl
    simp [hb]
  | ok a =>
    have hb : (Except.ok a >>= f) = f a := rfl
    simp [hb]

/-- Nothing fails when a result is put together. -/
theorem Verdict.bind_ok_eq_error_iff {α β : Type} {x : Verdict α} {f : α → β} {e : TypeError} :
    (x >>= fun a => .ok (f a)) = .error e ↔ x = .error e := by
  rw [Verdict.bind_eq_error_iff]
  simp

/-- An error is reported as it is. -/
theorem Verdict.error_eq_error_iff {α : Type} {e e' : TypeError} :
    (.error e : Verdict α) = .error e' ↔ e' = e := by
  rw [Except.error.injEq, eq_comm]

/-- A guarded conclusion fails when the guard does. -/
theorem Verdict.guard_eq_error_iff {α : Type} {c : Prop} [Decidable c] {a : α}
    {e e' : TypeError} :
    (if c then .ok a else .error e : Verdict α) = .error e' ↔ ¬ c ∧ e' = e := by
  by_cases h : c <;> simp [h, Verdict.error_eq_error_iff, -Except.error.injEq]

/-! ## 2. Heads of canonical types -/

theorem Ty.kind_eq_int_iff {t : Ty} : t.kind = .int ↔ t.canonical = .int := by
  rw [← Ty.kind_canonical]
  cases h : t.canonical <;> simp [Ty.kind]
  exact absurd h (Ty.canonical_ne_alias t)

theorem Ty.int_accepts_iff {s : Ty} : Ty.int.accepts s = true ↔ s.kind = .int := by
  rw [Ty.kind_eq_int_iff]
  exact Ty.int_admits_iff

theorem Ty.kind_eq_float_iff {t : Ty} : t.kind = .float ↔ t.canonical = .float := by
  rw [← Ty.kind_canonical]
  cases h : t.canonical <;> simp [Ty.kind]
  exact absurd h (Ty.canonical_ne_alias t)

theorem Ty.kind_eq_tuple_iff {t : Ty} : t.kind = .tuple ↔ ∃ elems, t.canonical = .tuple elems := by
  rw [← Ty.kind_canonical]
  cases h : t.canonical <;> simp [Ty.kind]
  exact absurd h (Ty.canonical_ne_alias t)

theorem Ty.kind_eq_named_iff {t : Ty} :
    t.kind = .named ↔ ∃ fields, t.canonical = .named fields := by
  rw [← Ty.kind_canonical]
  cases h : t.canonical <;> simp [Ty.kind]
  exact absurd h (Ty.canonical_ne_alias t)

theorem Ty.kind_eq_seq_iff {t : Ty} : t.kind = .seq ↔ ∃ elem, t.canonical = .seq elem := by
  rw [← Ty.kind_canonical]
  cases h : t.canonical <;> simp [Ty.kind]
  exact absurd h (Ty.canonical_ne_alias t)

theorem Ty.kind_eq_map_iff {t : Ty} :
    t.kind = .map ↔ ∃ key value, t.canonical = .map key value := by
  rw [← Ty.kind_canonical]
  cases h : t.canonical <;> simp [Ty.kind]
  exact absurd h (Ty.canonical_ne_alias t)

/-! ## 3. Operators and conversions -/

section Operands

variable {span : Span} {x : TypeError}

theorem Rule.neg_eq_error_iff {operand : Typed} :
    Rule.unary span .neg operand = .error x ↔
      ¬ (operand.ty.kind = .int ∨ operand.ty.kind = .float) ∧
        x = operand.mismatch [.type .int, .type .float] := by
  simp only [Rule.unary, Verdict.guard_eq_error_iff, Ty.isNumeric_iff]

theorem Rule.not_eq_error_iff {operand : Typed} :
    Rule.unary span .not operand = .error x ↔
      operand.ty.kind ≠ .bool ∧ x = operand.mismatch [.type .bool] := by
  simp only [Rule.unary, Verdict.guard_eq_error_iff, Ty.isOf_iff, ne_eq]

/-- The map is looked at before the key. -/
theorem Rule.hasKey_eq_error_iff {key map : Typed} :
    Rule.hasKey span key map = .error x ↔
      map.ty.kind ≠ .map ∧ x = map.mismatch [.kind .map] ∨
      ∃ keyTy value, map.ty.canonical = .map keyTy value ∧ keyTy.accepts key.ty = false ∧
        x = key.mismatch [.type keyTy] := by
  unfold Rule.hasKey
  rw [ne_eq, Ty.kind_eq_map_iff]
  cases map.ty.canonical with
  | map keyTy value =>
    simp only [Verdict.guard_eq_error_iff, Bool.not_eq_true]
    simp
  | _ => simp [Verdict.error_eq_error_iff, -Except.error.injEq]

/-- Arithmetic and comparison refuse all but two numbers of one type. -/
theorem Rule.numbers_eq_error_iff {op : BinaryOp} {lhs rhs : Typed}
    (ho : op.family = .arithmetic ∨ op.family = .comparison) :
    Rule.binary span op lhs rhs = .error x ↔
      ¬ lhs.ty.SameNumber rhs.ty ∧ x = ⟨.operands op lhs.ty rhs.ty, span⟩ := by
  unfold Rule.binary
  rcases ho with ho | ho <;>
    simp only [ho, Verdict.guard_eq_error_iff, Ty.numericPair_iff]

theorem Rule.equality_eq_error_iff {op : BinaryOp} {lhs rhs : Typed}
    (ho : op.family = .equality) :
    Rule.binary span op lhs rhs = .error x ↔
      ¬ lhs.ty.Comparable rhs.ty ∧ x = ⟨.incomparable lhs.ty rhs.ty, span⟩ := by
  unfold Rule.binary
  simp only [ho, Verdict.guard_eq_error_iff, Ty.comparable_iff]

/-- The left operand is looked at before the right one. -/
theorem Rule.logical_eq_error_iff {op : BinaryOp} {lhs rhs : Typed}
    (ho : op.family = .logical) :
    Rule.binary span op lhs rhs = .error x ↔
      lhs.ty.kind ≠ .bool ∧ x = lhs.mismatch [.type .bool] ∨
      lhs.ty.kind = .bool ∧ rhs.ty.kind ≠ .bool ∧ x = rhs.mismatch [.type .bool] := by
  unfold Rule.binary
  simp only [ho, Ty.isOf_iff]
  by_cases hl : lhs.ty.kind = .bool
  · simp [hl, Verdict.guard_eq_error_iff]
  · simp [hl, Verdict.error_eq_error_iff, -Except.error.injEq]

theorem Rule.cast_eq_error_iff {operand : Typed} {target : Ty} :
    Rule.cast span operand target = .error x ↔
      ¬ operand.ty.Comparable target ∧ x = ⟨.incomparable operand.ty target, span⟩ := by
  simp only [Rule.cast, Verdict.guard_eq_error_iff, Ty.comparable_iff]

theorem Rule.coerce_eq_error_iff {operand : Typed} {target : Ty} :
    Rule.coerce span operand target = .error x ↔
      ¬ operand.ty.SameScalar target ∧ ¬ operand.ty.ConvertsTo target ∧
        x = ⟨.incomparable operand.ty target, span⟩ := by
  unfold Rule.coerce
  rw [← Ty.conversion?_eq_identity_iff, ← Ty.conversion?_eq_convert_iff]
  rcases operand.ty.conversion? target with _ | _ | _ <;> simp [Verdict.error_eq_error_iff, -Except.error.injEq]

/-! ## 4. Parts of values -/

theorem Rule.component_eq_error_iff {base : Typed} {index : String} :
    Rule.component span base index = .error x ↔
      base.ty.kind ≠ .tuple ∧ x = base.mismatch [.kind .tuple] ∨
      ∃ elems, base.ty.canonical = .tuple elems ∧
        (∀ position, naturalOfChars? index.toList = some position → elems.length ≤ position) ∧
        x = ⟨.outOfBounds index base.ty, span⟩ := by
  unfold Rule.component
  rw [ne_eq, Ty.kind_eq_tuple_iff]
  cases base.ty.canonical with
  | tuple elems =>
    cases naturalOfChars? index.toList with
    | none => simp [Verdict.error_eq_error_iff, -Except.error.injEq]
    | some position =>
      cases he : elems[position]? with
      | none =>
        have hp : elems.length ≤ position := List.getElem?_eq_none_iff.mp he
        simp [hp, Verdict.error_eq_error_iff, -Except.error.injEq]
      | some elem =>
        have hp : position < elems.length := (List.getElem?_eq_some_iff.mp he).1
        simp [he]
        omega
  | _ => simp [Verdict.error_eq_error_iff, -Except.error.injEq]

theorem Rule.field_eq_error_iff {base : Typed} {name : String} :
    Rule.field span base name = .error x ↔
      base.ty.kind ≠ .named ∧ x = base.mismatch [.kind .named] ∨
      ∃ fields, base.ty.canonical = .named fields ∧ fields.lookup name = none ∧
        x = ⟨.noField name base.ty, span⟩ := by
  unfold Rule.field
  rw [ne_eq, Ty.kind_eq_named_iff]
  cases base.ty.canonical with
  | named fields =>
    cases hf : fields.lookup name <;>
      simp [hf, Verdict.error_eq_error_iff, -Except.error.injEq, -List.lookup_eq_none_iff]
  | _ => simp [Verdict.error_eq_error_iff, -Except.error.injEq]

theorem Rule.index_eq_error_iff {base index : Typed} :
    Rule.index span base index = .error x ↔
      base.ty.kind ≠ .seq ∧ base.ty.kind ≠ .map ∧
        x = base.mismatch [.kind .seq, .kind .map] ∨
      base.ty.kind = .seq ∧ index.ty.kind ≠ .int ∧ x = index.mismatch [.type .int] ∨
      ∃ key value, base.ty.canonical = .map key value ∧ key.accepts index.ty = false ∧
        x = index.mismatch [.type key] := by
  unfold Rule.index
  rw [ne_eq, ne_eq, Ty.kind_eq_seq_iff, Ty.kind_eq_map_iff]
  cases base.ty.canonical with
  | seq elem => simp [Verdict.guard_eq_error_iff, Ty.isOf_iff]
  | map key value =>
    simp only [Verdict.guard_eq_error_iff, Bool.not_eq_true]
    simp
  | _ => simp [Verdict.error_eq_error_iff, -Except.error.injEq]

theorem Rule.keys_eq_error_iff {map : Typed} :
    Rule.keys span map = .error x ↔ map.ty.kind ≠ .map ∧ x = map.mismatch [.kind .map] := by
  unfold Rule.keys
  rw [ne_eq, Ty.kind_eq_map_iff]
  cases map.ty.canonical <;> simp [Verdict.error_eq_error_iff, -Except.error.injEq]

theorem Rule.values_eq_error_iff {map : Typed} :
    Rule.values span map = .error x ↔ map.ty.kind ≠ .map ∧ x = map.mismatch [.kind .map] := by
  unfold Rule.values
  rw [ne_eq, Ty.kind_eq_map_iff]
  cases map.ty.canonical <;> simp [Verdict.error_eq_error_iff, -Except.error.injEq]

theorem Rule.sizeof_eq_error_iff {collection : Typed} :
    Rule.sizeof span collection = .error x ↔
      collection.ty.kind ≠ .seq ∧ collection.ty.kind ≠ .map ∧
        x = collection.mismatch [.kind .seq, .kind .map] := by
  simp only [Rule.sizeof, Verdict.guard_eq_error_iff, Bool.or_eq_true, Ty.isOf_iff, not_or,
    and_assoc, ne_eq]

end Operands

/-! ## 5. Literals and names -/

section Names

variable {scope : Scope} {span : Span} {x : TypeError}

theorem Rule.int_eq_error_iff {text : String} :
    Rule.int span text = .error x ↔ integerOfText? text = none ∧ x = ⟨.badNumber text, span⟩ := by
  unfold Rule.int
  cases integerOfText? text <;> simp [Verdict.error_eq_error_iff, -Except.error.injEq]

theorem Rule.decimal_eq_error_iff {whole : Option String} {fraction : String} :
    Rule.float span (.decimal whole fraction) = .error x ↔
      Binary64.ofDecimal? (whole.getD "") fraction = none ∧
        x = ⟨.badNumber (whole.getD "" ++ "." ++ fraction), span⟩ := by
  simp only [Rule.float]
  cases Binary64.ofDecimal? (whole.getD "") fraction <;> simp [Verdict.error_eq_error_iff, -Except.error.injEq]

theorem Scope.lookupVar_eq_none_iff {name : String} :
    scope.lookupVar name = none ↔ ∀ v, scope.lookup name ≠ some (.var v) := by
  rw [Option.eq_none_iff_forall_ne_some]
  simp only [ne_eq, Scope.lookupVar_eq_some_iff]

theorem Rule.linear_eq_error_iff {mode : LinearMode} {name : String} :
    Rule.linear scope span mode name = .error x ↔
      (∀ v, scope.lookup name ≠ some (.var v)) ∧ x = ⟨.undeclared (.one .var) name, span⟩ := by
  unfold Rule.linear
  rw [← Scope.lookupVar_eq_none_iff]
  cases scope.lookupVar name <;> simp [Verdict.error_eq_error_iff, -Except.error.injEq]

/-- Something that a bare name can stand for. -/
def Symbol.IsValue : Symbol → Prop
  | .var _ | .element _ | .event _ => True
  | .function _ | .machine _ => False

theorem Rule.name_eq_error_iff {name : String} :
    Rule.name scope span name = .error x ↔
      (∀ symbol, scope.lookup name = some symbol → ¬ symbol.IsValue) ∧
        x = ⟨.undeclared .value name, span⟩ := by
  unfold Rule.name
  cases scope.lookup name with
  | none => simp [Verdict.error_eq_error_iff, -Except.error.injEq]
  | some symbol => cases symbol <;> simp [Symbol.IsValue, Verdict.error_eq_error_iff, -Except.error.injEq]

theorem Rule.halt_eq_error_iff :
    Rule.halt scope span = .error x ↔
      (∀ e, scope.lookup Event.haltName ≠ some (.event e)) ∧
        x = ⟨.undeclared (.one .event) Event.haltName, span⟩ := by
  have hn : scope.lookupEvent Event.haltName = none ↔
      ∀ e, scope.lookup Event.haltName ≠ some (.event e) := by
    rw [Option.eq_none_iff_forall_ne_some]
    simp only [ne_eq, Scope.lookupEvent_eq_some_iff]
  unfold Rule.halt
  rw [← hn]
  cases scope.lookupEvent Event.haltName <;> simp [Verdict.error_eq_error_iff, -Except.error.injEq]

theorem Rule.self_eq_error_iff {owner : Option Machine} :
    Rule.self owner span = .error x ↔ owner = none ∧ x = ⟨.misplacedSelf, span⟩ := by
  cases owner <;> simp [Rule.self, Verdict.error_eq_error_iff, -Except.error.injEq]

/-- The function is looked for before the arguments are counted. -/
theorem Rule.callee_eq_error_iff {name : String} {count : Nat} :
    Rule.callee scope span name count = .error x ↔
      (∀ f, scope.lookup name ≠ some (.function f)) ∧
        x = ⟨.undeclared (.one .function) name, span⟩ ∨
      ∃ f, scope.lookup name = some (.function f) ∧ count ≠ f.params.length ∧
        x = ⟨.argumentCount f.params.length count, span⟩ := by
  have hn : scope.lookupFunction name = none ↔
      ∀ f, scope.lookup name ≠ some (.function f) := by
    rw [Option.eq_none_iff_forall_ne_some]
    simp only [ne_eq, Scope.lookupFunction_eq_some_iff]
  unfold Rule.callee
  rw [← hn]
  simp only [← Scope.lookupFunction_eq_some_iff]
  cases scope.lookupFunction name with
  | none => simp [Verdict.error_eq_error_iff, -Except.error.injEq]
  | some f => simp [Verdict.guard_eq_error_iff]

theorem Rule.constructor_eq_error_iff {name : String} :
    Rule.constructor scope span name = .error x ↔
      (∀ m, scope.lookup name ≠ some (.machine m)) ∧
        x = ⟨.undeclared (.one .machine) name, span⟩ := by
  have hn : scope.lookupMachine name = none ↔
      ∀ m, scope.lookup name ≠ some (.machine m) := by
    rw [Option.eq_none_iff_forall_ne_some]
    simp only [ne_eq, Scope.lookupMachine_eq_some_iff]
  unfold Rule.constructor
  rw [← hn]
  cases scope.lookupMachine name <;> simp [Verdict.error_eq_error_iff, -Except.error.injEq]

end Names

/-! ## 6. Arguments -/

/-- **The first argument that does not fit its slot**, and the slot. -/
def FirstMisfit {α : Type} (fits : α → Typed → Prop) (slots : List α) (args : List Typed)
    (slot : α) (arg : Typed) : Prop :=
  ∃ slots₁ slots₂ args₁ args₂, slots = slots₁ ++ slot :: slots₂ ∧ args = args₁ ++ arg :: args₂ ∧
    List.Forall₂ fits slots₁ args₁ ∧ ¬ fits slot arg

section Misfit

variable {α : Type} {fits : α → Typed → Prop} {slot : α} {arg : Typed}

theorem FirstMisfit.mem_left {slots : List α} {args : List Typed}
    (h : FirstMisfit fits slots args slot arg) : slot ∈ slots := by
  obtain ⟨_, _, _, _, rfl, -, -, -⟩ := h
  exact List.mem_append_right _ List.mem_cons_self

theorem FirstMisfit.mem_right {slots : List α} {args : List Typed}
    (h : FirstMisfit fits slots args slot arg) : arg ∈ args := by
  obtain ⟨_, _, _, _, -, rfl, -, -⟩ := h
  exact List.mem_append_right _ List.mem_cons_self

theorem not_firstMisfit_nil {args : List Typed} : ¬ FirstMisfit fits [] args slot arg := by
  rintro ⟨slots₁, _, _, _, h, -⟩
  cases slots₁ <;> cases h

theorem not_firstMisfit_nil_right {slots : List α} : ¬ FirstMisfit fits slots [] slot arg := by
  rintro ⟨_, _, args₁, _, -, h, -⟩
  cases args₁ <;> cases h

theorem firstMisfit_cons {s : α} {slots : List α} {a : Typed} {args : List Typed} :
    FirstMisfit fits (s :: slots) (a :: args) slot arg ↔
      slot = s ∧ arg = a ∧ ¬ fits s a ∨ fits s a ∧ FirstMisfit fits slots args slot arg := by
  constructor
  · rintro ⟨slots₁, slots₂, args₁, args₂, hs, ha, hf, hn⟩
    cases hf with
    | nil =>
      cases hs
      cases ha
      exact Or.inl ⟨rfl, rfl, hn⟩
    | @cons _ _ slots₁ args₁ h hf =>
      cases hs
      cases ha
      exact Or.inr ⟨h, slots₁, slots₂, args₁, args₂, rfl, rfl, hf, hn⟩
  · rintro (⟨rfl, rfl, hn⟩ | ⟨h, slots₁, slots₂, args₁, args₂, rfl, rfl, hf, hn⟩)
    · exact ⟨[], slots, [], args, rfl, rfl, .nil, hn⟩
    · exact ⟨s :: slots₁, slots₂, a :: args₁, args₂, rfl, rfl, .cons h hf, hn⟩

theorem firstMisfit_one_iff {s : α} {a : Typed} :
    FirstMisfit fits [s] [a] slot arg ↔ slot = s ∧ arg = a ∧ ¬ fits s a := by
  rw [firstMisfit_cons]
  constructor
  · rintro (h | ⟨-, h⟩)
    · exact h
    · exact absurd h not_firstMisfit_nil
  · exact Or.inl

/-- Either all arguments fit their slots, or there is a first one that does not. -/
theorem forall₂_or_firstMisfit {slots : List α} {args : List Typed}
    (h : slots.length = args.length) :
    List.Forall₂ fits slots args ∨ ∃ slot arg, FirstMisfit fits slots args slot arg := by
  induction slots generalizing args with
  | nil =>
    obtain rfl := List.length_eq_zero_iff.mp h.symm
    exact Or.inl .nil
  | cons s slots ih =>
    cases args with
    | nil => cases h
    | cons a args =>
      by_cases ha : fits s a
      · rcases ih (Nat.succ.inj h) with hall | ⟨slot, arg, hm⟩
        · exact Or.inl (.cons ha hall)
        · exact Or.inr ⟨slot, arg, firstMisfit_cons.mpr (Or.inr ⟨ha, hm⟩)⟩
      · exact Or.inr ⟨s, a, firstMisfit_cons.mpr (Or.inl ⟨rfl, rfl, ha⟩)⟩

end Misfit

section Arguments

variable {span : Span} {x : TypeError}

/-- A variable is refused when it was handed over before. -/
theorem Rule.relinquish_eq_error_iff {taken : List String} {arg : Typed} :
    Rule.relinquish taken arg = .error x ↔
      ∃ mode v, arg.handover? = some (mode, v) ∧ v.name ∈ taken ∧
        x = ⟨.relinquished v.name, arg.span⟩ := by
  unfold Rule.relinquish
  cases arg.handover? with
  | none => simp
  | some handover =>
    obtain ⟨mode, v⟩ := handover
    by_cases hv : v.name ∈ taken <;>
      simp [hv, Verdict.error_eq_error_iff, -Except.error.injEq]

/-- What is reported of arguments is the first one that may not be passed. -/
theorem Rule.passAll_eq_error_iff {params : List Parameter} {args : List Typed} :
    Rule.passAll params args = .error x ↔
      ∃ param arg, FirstMisfit Parameter.Takes params args param arg ∧
        x = arg.mismatch [.type param.ty] := by
  induction params generalizing args with
  | nil => simp [Rule.passAll, not_firstMisfit_nil]
  | cons p params ih =>
    cases args with
    | nil => simp [Rule.passAll, not_firstMisfit_nil_right]
    | cons a args =>
      simp only [Rule.passAll, firstMisfit_cons, ← Rule.passes_iff]
      by_cases h : Rule.passes p.ty a = true
      · simp [h, ih]
      · simp [h, Verdict.error_eq_error_iff, -Except.error.injEq]

theorem Rule.fillAll_eq_error_iff {slots : List Ty} {args : List Typed} :
    Rule.fillAll slots args = .error x ↔
      ∃ slot arg, FirstMisfit (fun slot arg => slot.accepts arg.ty = true) slots args slot arg ∧
        x = arg.mismatch [.type slot] := by
  induction slots generalizing args with
  | nil => simp [Rule.fillAll, not_firstMisfit_nil]
  | cons s slots ih =>
    cases args with
    | nil => simp [Rule.fillAll, not_firstMisfit_nil_right]
    | cons a args =>
      simp only [Rule.fillAll, firstMisfit_cons]
      by_cases h : s.accepts a.ty = true
      · simp [h, ih]
      · simp [h, Verdict.error_eq_error_iff, -Except.error.injEq]

/-- **How a payload refuses arguments**: it wants one and is given none, the one does not fit, it
has no slots for several or another number of them, or the first that does not fit. -/
inductive Ty.Refuses (payload : Ty) (span : Span) : List Typed → TypeError → Prop
  | nothing : payload.canonical ≠ .null → Ty.Refuses payload span [] ⟨.argumentCount 1 0, span⟩
  | whole {arg : Typed} : payload.accepts arg.ty = false →
      Ty.Refuses payload span [arg] (arg.mismatch [.type payload])
  | unslotted {args : List Typed} : 2 ≤ args.length → Rule.slots? payload = none →
      Ty.Refuses payload span args ⟨.argumentCount 1 args.length, span⟩
  | count {args : List Typed} {slots : List Ty} : 2 ≤ args.length →
      Rule.slots? payload = some slots → slots.length ≠ args.length →
      Ty.Refuses payload span args ⟨.argumentCount slots.length args.length, span⟩
  | slot {args : List Typed} {slots : List Ty} {slot : Ty} {arg : Typed} : 2 ≤ args.length →
      Rule.slots? payload = some slots → slots.length = args.length →
      FirstMisfit (fun slot arg => slot.accepts arg.ty = true) slots args slot arg →
      Ty.Refuses payload span args (arg.mismatch [.type slot])

theorem Rule.payload_eq_error_iff {payload : Ty} {args : List Typed} :
    Rule.payload payload span args = .error x ↔ payload.Refuses span args x := by
  match args with
  | [] =>
    simp only [Rule.payload, Verdict.guard_eq_error_iff]
    constructor
    · rintro ⟨hn, rfl⟩
      exact .nothing hn
    · intro h
      cases h with
      | nothing hn => exact ⟨hn, rfl⟩
      | unslotted hl _ | count hl _ _ | slot hl _ _ _ => simp at hl
  | [arg] =>
    simp only [Rule.payload, Rule.fillAll_eq_error_iff, firstMisfit_one_iff]
    constructor
    · rintro ⟨slot, a, ⟨rfl, rfl, ha⟩, rfl⟩
      exact .whole (Bool.not_eq_true _ ▸ ha)
    · intro h
      cases h with
      | whole ha => exact ⟨payload, arg, ⟨rfl, rfl, by simp [ha]⟩, rfl⟩
      | unslotted hl _ | count hl _ _ | slot hl _ _ _ => simp at hl
  | first :: second :: rest =>
    have hl : 2 ≤ (first :: second :: rest).length := by simp
    simp only [Rule.payload]
    constructor
    · intro h
      split at h
      · rename_i hs
        cases h
        exact .unslotted hl hs
      · rename_i slots hs
        split at h
        · rename_i hc
          obtain ⟨slot, arg, hf, rfl⟩ := Rule.fillAll_eq_error_iff.mp h
          exact .slot hl hs hc hf
        · rename_i hc
          cases h
          exact .count hl hs hc
    · intro h
      cases h with
      | unslotted _ hs => simp [hs]
      | count _ hs hc => simp only [hs, if_neg hc]
      | slot _ hs hc hf =>
        simp only [hs, if_pos hc]
        exact Rule.fillAll_eq_error_iff.mpr ⟨_, _, hf, rfl⟩

theorem Rule.call_eq_error_iff {f : Function} {args : List Typed} :
    Rule.call span f args = .error x ↔
      ∃ param arg, FirstMisfit Parameter.Takes f.params args param arg ∧
        x = arg.mismatch [.type param.ty] := by
  rw [← Rule.passAll_eq_error_iff]
  exact Verdict.bind_ok_eq_error_iff

theorem Rule.new_eq_error_iff {m : Machine} {args : List Typed} :
    Rule.new span m args = .error x ↔ m.payload.Refuses span args x := by
  rw [← Rule.payload_eq_error_iff]
  exact Verdict.bind_ok_eq_error_iff

end Arguments

end MachineTyping
