/-
# Assignability is an order

`accepts` is read up to aliases, and so it cannot be a partial order on types as written.  It is
one on types up to sameness, and `any` is its top:

* every type accepts itself (`accepts_refl`);
* what accepts an acceptor accepts what that one accepts (`accepts_trans`);
* two types accept each other exactly when they are the same type (`accepts_antisymm_iff`);
* `any` accepts every type and is accepted by no other (`any_accepts`, `accepts_any_iff`).

`accepts_isOrder` puts them together.  Everything is decided on canonical types, by `admits`, and
there the laws come from ONE fact for each head of a type: what a type with that head admits
(section 1).  Transitivity and antisymmetry look at no clause of `admits` but through it.
-/
import MachineTyping.Type.Assignable

namespace MachineTyping

/-! ## 1. What each type admits

The catch-all clause of `admits` hides that a head admits few others.  These lemmas say which. -/

@[simp] theorem Ty.any_admits (s : Ty) : Ty.any.admits s = true := by cases s <;> rfl

theorem Ty.int_admits_iff {s : Ty} : Ty.int.admits s = true ↔ s = .int := by
  constructor
  · intro h
    cases s with
    | int => rfl
    | _ => cases h
  · rintro rfl
    rfl

theorem Ty.float_admits_iff {s : Ty} : Ty.float.admits s = true ↔ s = .float := by
  constructor
  · intro h
    cases s with
    | float => rfl
    | _ => cases h
  · rintro rfl
    rfl

theorem Ty.bool_admits_iff {s : Ty} : Ty.bool.admits s = true ↔ s = .bool := by
  constructor
  · intro h
    cases s with
    | bool => rfl
    | _ => cases h
  · rintro rfl
    rfl

theorem Ty.null_admits_iff {s : Ty} : Ty.null.admits s = true ↔ s = .null := by
  constructor
  · intro h
    cases s with
    | null => rfl
    | _ => cases h
  · rintro rfl
    rfl

/-- The two reference types admit `null` besides themselves. -/
theorem Ty.event_admits_iff {s : Ty} :
    Ty.event.admits s = true ↔ s = .null ∨ s = .event := by
  constructor
  · intro h
    cases s with
    | null => exact Or.inl rfl
    | event => exact Or.inr rfl
    | _ => cases h
  · rintro (rfl | rfl)
    · rfl
    · rfl

theorem Ty.machine_admits_iff {s : Ty} :
    Ty.machine.admits s = true ↔ s = .null ∨ s = .machine := by
  constructor
  · intro h
    cases s with
    | null => exact Or.inl rfl
    | machine => exact Or.inr rfl
    | _ => cases h
  · rintro (rfl | rfl)
    · rfl
    · rfl

theorem Ty.enum_admits_iff {name : String} {s : Ty} :
    (Ty.enum name).admits s = true ↔ s = .enum name := by
  constructor
  · intro h
    cases s with
    | enum other => rw [beq_iff_eq.mp h]
    | _ => cases h
  · rintro rfl
    exact beq_iff_eq.mpr rfl

theorem Ty.tuple_admits_iff {ts : List Ty} {s : Ty} :
    (Ty.tuple ts).admits s = true ↔ ∃ ss, s = .tuple ss ∧ Ty.admitsList ts ss = true := by
  constructor
  · intro h
    cases s with
    | tuple ss => exact ⟨ss, rfl, h⟩
    | _ => cases h
  · rintro ⟨ss, rfl, h⟩
    exact h

theorem Ty.named_admits_iff {fs : List (String × Ty)} {s : Ty} :
    (Ty.named fs).admits s = true ↔ ∃ gs, s = .named gs ∧ Ty.admitsFields fs gs = true := by
  constructor
  · intro h
    cases s with
    | named gs => exact ⟨gs, rfl, h⟩
    | _ => cases h
  · rintro ⟨gs, rfl, h⟩
    exact h

theorem Ty.seq_admits_iff {t s : Ty} :
    (Ty.seq t).admits s = true ↔ ∃ u, s = .seq u ∧ t.admits u = true := by
  constructor
  · intro h
    cases s with
    | seq u => exact ⟨u, rfl, h⟩
    | _ => cases h
  · rintro ⟨u, rfl, h⟩
    exact h

theorem Ty.map_admits_iff {k v s : Ty} :
    (Ty.map k v).admits s = true ↔
      ∃ l w, s = .map l w ∧ k.admits l = true ∧ v.admits w = true := by
  constructor
  · intro h
    cases s with
    | map l w => exact ⟨l, w, rfl, Bool.and_eq_true_iff.mp h⟩
    | _ => cases h
  · rintro ⟨l, w, rfl, h⟩
    exact Bool.and_eq_true_iff.mpr h

/-- An alias that was not resolved admits nothing. -/
@[simp] theorem Ty.alias_admits (name : String) (t s : Ty) : (Ty.alias name t).admits s = false := by
  cases s <;> rfl

/-- Nothing but `any` admits `any`. -/
theorem Ty.admits_any_iff {t : Ty} : t.admits .any = true ↔ t = .any := by
  constructor
  · intro h
    cases t with
    | any => rfl
    | _ => cases h
  · rintro rfl
    rfl

/-! ## 2. The laws on canonical types -/

mutual

/-- A canonical type admits itself.  An alias would not. -/
theorem Ty.admits_canonical_self : ∀ t : Ty, t.canonical.admits t.canonical = true
  | .int | .float | .bool | .any | .null | .event | .machine => rfl
  | .enum _ => by simp [Ty.canonical, Ty.admits]
  | .tuple ts => by simpa [Ty.canonical, Ty.admits] using Ty.admitsList_canonical_self ts
  | .named fs => by simpa [Ty.canonical, Ty.admits] using Ty.admitsFields_canonical_self fs
  | .seq t => by simpa [Ty.canonical, Ty.admits] using t.admits_canonical_self
  | .map k v => by simp [Ty.canonical, Ty.admits, k.admits_canonical_self, v.admits_canonical_self]
  | .alias _ t => by simpa [Ty.canonical] using t.admits_canonical_self

theorem Ty.admitsList_canonical_self : ∀ ts : List Ty,
    Ty.admitsList (ts.map Ty.canonical) (ts.map Ty.canonical) = true
  | [] => rfl
  | t :: ts => by
    simp [Ty.admitsList, t.admits_canonical_self, Ty.admitsList_canonical_self ts]

theorem Ty.admitsFields_canonical_self : ∀ fs : List (String × Ty),
    Ty.admitsFields (fs.map fun field => (field.1, field.2.canonical))
      (fs.map fun field => (field.1, field.2.canonical)) = true
  | [] => rfl
  | (_, t) :: fs => by
    simp [Ty.admitsFields, t.admits_canonical_self, Ty.admitsFields_canonical_self fs]

end

/-- No alias is left at the head of a canonical type, because that admits itself. -/
theorem Ty.canonical_ne_alias {name : String} {u : Ty} (t : Ty) : t.canonical ≠ .alias name u := by
  intro h
  have hself := t.admits_canonical_self
  rw [h, Ty.alias_admits] at hself
  cases hself

mutual

/-- **Admission is transitive.**  The rule for `null` does no harm, because `null` itself admits
`null` only; neither does the rule for `any`, because only `any` admits it. -/
theorem Ty.admits_trans : ∀ {a b c : Ty},
    a.admits b = true → b.admits c = true → a.admits c = true
  | .any, _, c, _, _ => Ty.any_admits c
  | .int, _, _, hab, hbc => by rw [Ty.int_admits_iff] at hab; subst hab; exact hbc
  | .float, _, _, hab, hbc => by rw [Ty.float_admits_iff] at hab; subst hab; exact hbc
  | .bool, _, _, hab, hbc => by rw [Ty.bool_admits_iff] at hab; subst hab; exact hbc
  | .null, _, _, hab, hbc => by rw [Ty.null_admits_iff] at hab; subst hab; exact hbc
  | .event, _, _, hab, hbc => by
    rcases Ty.event_admits_iff.mp hab with rfl | rfl
    · exact Ty.event_admits_iff.mpr (Or.inl (Ty.null_admits_iff.mp hbc))
    · exact hbc
  | .machine, _, _, hab, hbc => by
    rcases Ty.machine_admits_iff.mp hab with rfl | rfl
    · exact Ty.machine_admits_iff.mpr (Or.inl (Ty.null_admits_iff.mp hbc))
    · exact hbc
  | .enum _, _, _, hab, hbc => by rw [Ty.enum_admits_iff] at hab; subst hab; exact hbc
  | .tuple _, _, _, hab, hbc => by
    obtain ⟨ss, rfl, hab⟩ := Ty.tuple_admits_iff.mp hab
    obtain ⟨us, rfl, hbc⟩ := Ty.tuple_admits_iff.mp hbc
    exact Ty.tuple_admits_iff.mpr ⟨us, rfl, Ty.admitsList_trans hab hbc⟩
  | .named _, _, _, hab, hbc => by
    obtain ⟨gs, rfl, hab⟩ := Ty.named_admits_iff.mp hab
    obtain ⟨hs, rfl, hbc⟩ := Ty.named_admits_iff.mp hbc
    exact Ty.named_admits_iff.mpr ⟨hs, rfl, Ty.admitsFields_trans hab hbc⟩
  | .seq _, _, _, hab, hbc => by
    obtain ⟨s, rfl, hab⟩ := Ty.seq_admits_iff.mp hab
    obtain ⟨u, rfl, hbc⟩ := Ty.seq_admits_iff.mp hbc
    exact Ty.seq_admits_iff.mpr ⟨u, rfl, Ty.admits_trans hab hbc⟩
  | .map _ _, _, _, hab, hbc => by
    obtain ⟨l, w, rfl, hk, hv⟩ := Ty.map_admits_iff.mp hab
    obtain ⟨m, x, rfl, hl, hw⟩ := Ty.map_admits_iff.mp hbc
    exact Ty.map_admits_iff.mpr ⟨m, x, rfl, Ty.admits_trans hk hl, Ty.admits_trans hv hw⟩
  | .alias _ _, _, _, hab, _ => by simp at hab

theorem Ty.admitsList_trans : ∀ {as bs cs : List Ty},
    Ty.admitsList as bs = true → Ty.admitsList bs cs = true → Ty.admitsList as cs = true
  | [], [], _, _, hbc => hbc
  | _ :: _, _ :: _, [], _, hbc => by simp [Ty.admitsList] at hbc
  | _ :: _, _ :: _, _ :: _, hab, hbc => by
    simp only [Ty.admitsList, Bool.and_eq_true] at hab hbc ⊢
    exact ⟨Ty.admits_trans hab.1 hbc.1, Ty.admitsList_trans hab.2 hbc.2⟩

theorem Ty.admitsFields_trans : ∀ {fs gs hs : List (String × Ty)},
    Ty.admitsFields fs gs = true → Ty.admitsFields gs hs = true → Ty.admitsFields fs hs = true
  | [], [], _, _, hgh => hgh
  | _ :: _, _ :: _, [], _, hgh => by simp [Ty.admitsFields] at hgh
  | (_, _) :: _, (_, _) :: _, (_, _) :: _, hfg, hgh => by
    simp only [Ty.admitsFields, Bool.and_eq_true, beq_iff_eq] at hfg hgh ⊢
    obtain ⟨⟨hname, hty⟩, hrest⟩ := hfg
    obtain ⟨⟨hname', hty'⟩, hrest'⟩ := hgh
    exact ⟨⟨hname.trans hname', Ty.admits_trans hty hty'⟩, Ty.admitsFields_trans hrest hrest'⟩

end

mutual

/-- **Types that admit each other are equal.** -/
theorem Ty.eq_of_admits : ∀ {a b : Ty}, a.admits b = true → b.admits a = true → a = b
  | .any, _, _, hba => (Ty.admits_any_iff.mp hba).symm
  | .int, _, hab, _ => (Ty.int_admits_iff.mp hab).symm
  | .float, _, hab, _ => (Ty.float_admits_iff.mp hab).symm
  | .bool, _, hab, _ => (Ty.bool_admits_iff.mp hab).symm
  | .null, _, hab, _ => (Ty.null_admits_iff.mp hab).symm
  | .event, _, hab, hba => by
    rcases Ty.event_admits_iff.mp hab with rfl | rfl
    · simp [Ty.null_admits_iff] at hba
    · rfl
  | .machine, _, hab, hba => by
    rcases Ty.machine_admits_iff.mp hab with rfl | rfl
    · simp [Ty.null_admits_iff] at hba
    · rfl
  | .enum _, _, hab, _ => (Ty.enum_admits_iff.mp hab).symm
  | .tuple ts, _, hab, hba => by
    obtain ⟨ss, rfl, hab⟩ := Ty.tuple_admits_iff.mp hab
    have hba : Ty.admitsList ss ts = true := hba
    rw [Ty.eq_of_admitsList hab hba]
  | .named fs, _, hab, hba => by
    obtain ⟨gs, rfl, hab⟩ := Ty.named_admits_iff.mp hab
    have hba : Ty.admitsFields gs fs = true := hba
    rw [Ty.eq_of_admitsFields hab hba]
  | .seq t, _, hab, hba => by
    obtain ⟨s, rfl, hab⟩ := Ty.seq_admits_iff.mp hab
    have hba : s.admits t = true := hba
    exact congrArg Ty.seq (Ty.eq_of_admits hab hba)
  | .map k v, _, hab, hba => by
    obtain ⟨l, w, rfl, hk, hv⟩ := Ty.map_admits_iff.mp hab
    have hba : l.admits k = true ∧ w.admits v = true := Bool.and_eq_true_iff.mp hba
    obtain ⟨hl, hw⟩ := hba
    rw [Ty.eq_of_admits hk hl, Ty.eq_of_admits hv hw]
  | .alias _ _, _, hab, _ => by simp at hab

theorem Ty.eq_of_admitsList : ∀ {as bs : List Ty},
    Ty.admitsList as bs = true → Ty.admitsList bs as = true → as = bs
  | [], [], _, _ => rfl
  | _ :: _, _ :: _, hab, hba => by
    simp only [Ty.admitsList, Bool.and_eq_true] at hab hba
    rw [Ty.eq_of_admits hab.1 hba.1, Ty.eq_of_admitsList hab.2 hba.2]

theorem Ty.eq_of_admitsFields : ∀ {fs gs : List (String × Ty)},
    Ty.admitsFields fs gs = true → Ty.admitsFields gs fs = true → fs = gs
  | [], [], _, _ => rfl
  | (_, _) :: _, (_, _) :: _, hfg, hgf => by
    simp only [Ty.admitsFields, Bool.and_eq_true, beq_iff_eq] at hfg hgf
    obtain ⟨⟨rfl, hty⟩, hrest⟩ := hfg
    rw [Ty.eq_of_admits hty hgf.1.2, Ty.eq_of_admitsFields hrest hgf.2]

end

/-! ## 3. The order -/

theorem Ty.accepts_refl (a : Ty) : a.accepts a = true := a.admits_canonical_self

theorem Ty.accepts_trans {a b c : Ty} (hab : a.accepts b = true) (hbc : b.accepts c = true) :
    a.accepts c = true :=
  Ty.admits_trans hab hbc

/-- The same type accepts and is accepted alike. -/
theorem Ty.accepts_of_sameAs {a b : Ty} (h : a.sameAs b = true) : a.accepts b = true := by
  rw [Ty.sameAs_iff] at h
  unfold Ty.accepts
  rw [← h]
  exact a.admits_canonical_self

/-- **Antisymmetry, up to sameness.** -/
theorem Ty.accepts_antisymm_iff {a b : Ty} :
    a.accepts b = true ∧ b.accepts a = true ↔ a.sameAs b = true := by
  constructor
  · rintro ⟨hab, hba⟩
    exact Ty.sameAs_iff.mpr (Ty.eq_of_admits hab hba)
  · intro h
    have h' : b.sameAs a = true := Ty.sameAs_iff.mpr (Ty.sameAs_iff.mp h).symm
    exact ⟨Ty.accepts_of_sameAs h, Ty.accepts_of_sameAs h'⟩

theorem Ty.any_accepts (a : Ty) : Ty.any.accepts a = true := Ty.any_admits a.canonical

/-- Nothing but `any`, under whatever name, accepts `any`. -/
theorem Ty.accepts_any_iff {a : Ty} : a.accepts .any = true ↔ a.sameAs .any = true := by
  rw [Ty.sameAs_iff]
  exact Ty.admits_any_iff

/-- **Assignability is a partial order up to sameness, with `any` on top.** -/
theorem Ty.accepts_isOrder (a b c : Ty) :
    a.accepts a = true ∧
    (a.accepts b = true → b.accepts c = true → a.accepts c = true) ∧
    (a.accepts b = true ∧ b.accepts a = true ↔ a.sameAs b = true) ∧
    Ty.any.accepts a = true ∧
    (a.accepts .any = true → a.sameAs .any = true) :=
  ⟨Ty.accepts_refl a, Ty.accepts_trans, Ty.accepts_antisymm_iff, Ty.any_accepts a,
    Ty.accepts_any_iff.mp⟩

/-- Nested sequences of references, where each step of the chain is strict: `any` over `event` by
the top rule, `event` over `null` by the rule for references, and an alias in between. -/
theorem Ty.accepts_isOrder_references :
    (Ty.seq .any).accepts (.alias "Refs" (.seq .event)) = true ∧
    (Ty.alias "Refs" (.seq .event)).accepts (.seq .null) = true ∧
    (Ty.seq .any).accepts (.seq .null) = true :=
  ⟨by decide, by decide,
    (Ty.accepts_isOrder (.seq .any) (.alias "Refs" (.seq .event)) (.seq .null)).2.1
      (by decide) (by decide)⟩

end MachineTyping
