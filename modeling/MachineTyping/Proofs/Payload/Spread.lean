/-
# Several arguments, or one tuple

A payload that is a tuple can be supplied in two ways: with one argument, which is a tuple itself,
or spread over several arguments, one for each element.  These go different ways.  One argument is
compared with the payload as a whole, by `Ty.admits`, which recurs through both types.  Several are
matched with the elements of the canonical payload, one after the other.

`Rule.payload_spreads` says that the two come to the same, and what is reported of several arguments
if they do not make up the payload.  What has to be seen for it is that a tuple accepts another one
element by element (`Ty.accepts_tuple_iff`), also where there are aliases on both sides, and that the
names of the fields, which only one of the two ways looks at, never get in the way.
-/
import MachineTyping.Proofs.Alias.Rule
import MachineTyping.Proofs.Failure.Rule

namespace MachineTyping

/-! ## 1. Tuples, element by element -/

theorem Ty.admitsList_iff_forall₂ {ts ss : List Ty} :
    Ty.admitsList ts ss = true ↔ List.Forall₂ (fun t s => t.admits s = true) ts ss := by
  induction ts generalizing ss with
  | nil => cases ss <;> simp [Ty.admitsList]
  | cons t ts ih => cases ss <;> simp [Ty.admitsList, ih]

theorem Ty.admitsFields_iff_forall₂ {fs gs : List (String × Ty)} :
    Ty.admitsFields fs gs = true ↔
      List.Forall₂ (fun f g => f.1 = g.1 ∧ f.2.admits g.2 = true) fs gs := by
  induction fs generalizing gs with
  | nil => cases gs <;> simp [Ty.admitsFields]
  | cons f fs ih => cases gs <;> simp [Ty.admitsFields, ih]

/-- **A tuple accepts a tuple element by element.** -/
theorem Ty.accepts_tuple_iff {target : Ty} {elems ts : List Ty}
    (h : target.canonical = .tuple elems) :
    target.accepts (.tuple ts) = true ↔
      List.Forall₂ (fun elem t => elem.accepts t = true) elems ts := by
  have hc : elems.map Ty.canonical = elems :=
    Rule.canonical_slots (Rule.slots?_eq_some_iff.mpr (Or.inl h))
  have ha : target.accepts (.tuple ts) =
      Ty.admitsList (elems.map Ty.canonical) (ts.map Ty.canonical) := by
    rw [hc, Ty.accepts, h, Ty.canonical, Ty.canonicalList_eq_map, Ty.admits]
  rw [ha, Ty.admitsList_iff_forall₂, List.forall₂_map_left_iff, List.forall₂_map_right_iff]
  rfl

/-- A named tuple accepts a named tuple with the same names, field by field. -/
theorem Ty.accepts_named_iff {target : Ty} {fields gs : List (String × Ty)}
    (h : target.canonical = .named fields) :
    target.accepts (.named gs) = true ↔
      List.Forall₂ (fun field g => field.1 = g.1 ∧ field.2.accepts g.2 = true) fields gs := by
  have hc : fields.map (fun field => (field.1, field.2.canonical)) = fields := by
    rw [← Ty.canonicalFields_eq_map, ← Ty.named.injEq, ← Ty.canonical, ← h, Ty.canonical_canonical]
  have ha : target.accepts (.named gs) =
      Ty.admitsFields (fields.map fun field => (field.1, field.2.canonical))
        (gs.map fun g => (g.1, g.2.canonical)) := by
    rw [hc, Ty.accepts, h, Ty.canonical, Ty.canonicalFields_eq_map, Ty.admits]
  rw [ha, Ty.admitsFields_iff_forall₂, List.forall₂_map_left_iff, List.forall₂_map_right_iff]
  rfl

/-- Types that are given the names of the fields are accepted if the fields accept them. -/
theorem Ty.accepts_named_zip_iff {target : Ty} {fields : List (String × Ty)} {ts : List Ty}
    (h : target.canonical = .named fields) (hl : fields.length = ts.length) :
    target.accepts (.named ((fields.map Prod.fst).zip ts)) = true ↔
      List.Forall₂ (fun slot t => slot.accepts t = true) (fields.map Prod.snd) ts := by
  rw [Ty.accepts_named_iff h, List.forall₂_map_left_iff]
  clear h
  induction fields generalizing ts with
  | nil =>
    obtain rfl := List.length_eq_zero_iff.mp hl.symm
    simp
  | cons field fields ih =>
    cases ts with
    | nil => cases hl
    | cons t ts => simp [ih (Nat.succ.inj hl)]

/-! ## 2. One argument and several -/

section Payload

variable {payload : Ty} {span : Span}

/-- One argument makes up a payload that accepts it. -/
theorem Rule.payload_one_iff {arg : Typed} :
    Rule.payload payload span [arg] = .ok () ↔ payload.accepts arg.ty = true := by
  simp only [Rule.payload, Rule.fillAll, Verdict.guard_eq_ok_iff, and_true]

/-- Several arguments make up a payload whose slots accept them, one each. -/
theorem Rule.payload_slots_iff {slots : List Ty} {args : List Typed} (h : 2 ≤ args.length)
    (hs : Rule.slots? payload = some slots) :
    Rule.payload payload span args = .ok () ↔
      List.Forall₂ (fun slot t => slot.accepts t = true) slots (args.map Typed.ty) := by
  rw [Rule.payload_many_iff h, List.forall₂_map_right_iff]
  constructor
  · rintro ⟨slots', hs', hf⟩
    obtain rfl := Option.some.inj (hs.symm.trans hs')
    exact hf
  · intro hf
    exact ⟨slots, hs, hf⟩

/-- They are counted before any of them is looked at. -/
theorem Rule.payload_many_eq {slots : List Ty} {args : List Typed} (h : 2 ≤ args.length)
    (hs : Rule.slots? payload = some slots) :
    Rule.payload payload span args =
      if slots.length = args.length then Rule.fillAll slots args
      else .error ⟨.argumentCount slots.length args.length, span⟩ := by
  obtain _ | ⟨first, _ | ⟨second, rest⟩⟩ := args
  · simp at h
  · simp at h
  · simp only [Rule.payload, hs]

/-- A payload that is no tuple cannot be spread. -/
theorem Rule.slots?_eq_none_iff :
    Rule.slots? payload = none ↔ payload.kind ≠ .tuple ∧ payload.kind ≠ .named := by
  rw [ne_eq, ne_eq, Ty.kind_eq_tuple_iff, Ty.kind_eq_named_iff, Rule.slots?]
  cases payload.canonical <;> simp

end Payload

/-! ## 3. The result -/

/-- **Spreading a payload agrees with passing it as one tuple.**

Two or more arguments make up a tuple payload exactly if the tuple of their types does, and a named
tuple payload exactly if there is one for each field and the named tuple that pairs the fields with
their types does.  No other payload can be spread, `any` as little as the rest.  Where there is a slot
for each argument, what is reported is the first that its slot does not accept; otherwise it is the
number of arguments, at the span that covers them. -/
theorem Rule.payload_spreads (payload : Ty) (span : Span) (args : List Typed)
    (h : 2 ≤ args.length) :
    (∀ elems, payload.canonical = .tuple elems →
      ∀ t : Typed, t.ty = .tuple (args.map Typed.ty) →
        (Rule.payload payload span args = .ok () ↔ Rule.payload payload span [t] = .ok ())) ∧
    (∀ fields, payload.canonical = .named fields →
      ∀ t : Typed, t.ty = .named ((fields.map Prod.fst).zip (args.map Typed.ty)) →
        (Rule.payload payload span args = .ok () ↔
          fields.length = args.length ∧ Rule.payload payload span [t] = .ok ())) ∧
    (payload.kind ≠ .tuple → payload.kind ≠ .named →
      Rule.payload payload span args = .error ⟨.argumentCount 1 args.length, span⟩) ∧
    ∀ slots, payload.canonical = .tuple slots ∨
        (∃ fields, payload.canonical = .named fields ∧ slots = fields.map Prod.snd) →
      (slots.length ≠ args.length →
        Rule.payload payload span args = .error ⟨.argumentCount slots.length args.length, span⟩) ∧
      (slots.length = args.length → ∀ x, Rule.payload payload span args = .error x ↔
        ∃ slot arg, FirstMisfit (fun slot arg => slot.accepts arg.ty = true) slots args slot arg ∧
          x = ⟨.mismatch arg.ty [.type slot], arg.span⟩) := by
  refine ⟨fun elems hp t ht => ?_, fun fields hp t ht => ?_, fun htuple hnamed => ?_, ?_⟩
  · have hs : Rule.slots? payload = some elems := Rule.slots?_eq_some_iff.mpr (Or.inl hp)
    rw [Rule.payload_slots_iff h hs, Rule.payload_one_iff, ht, Ty.accepts_tuple_iff hp]
  · have hs : Rule.slots? payload = some (fields.map Prod.snd) :=
      Rule.slots?_eq_some_iff.mpr (Or.inr ⟨fields, hp, rfl⟩)
    rw [Rule.payload_slots_iff h hs, Rule.payload_one_iff, ht]
    constructor
    · intro hf
      have hl : fields.length = args.length := by simpa using hf.length_eq
      exact ⟨hl, (Ty.accepts_named_zip_iff hp (by simpa using hl)).mpr hf⟩
    · rintro ⟨hl, ha⟩
      exact (Ty.accepts_named_zip_iff hp (by simpa using hl)).mp ha
  · have hs : Rule.slots? payload = none := Rule.slots?_eq_none_iff.mpr ⟨htuple, hnamed⟩
    exact Rule.payload_eq_error_iff.mpr (.unslotted h hs)
  · intro slots hp
    have hs : Rule.slots? payload = some slots := Rule.slots?_eq_some_iff.mpr hp
    rw [Rule.payload_many_eq h hs]
    refine ⟨fun hl => if_neg hl, fun hl x => ?_⟩
    rw [if_pos hl]
    exact Rule.fillAll_eq_error_iff

/-- A named payload, written with an alias around it and one inside, and two arguments of which the
second is `null`, for a machine.  The same payload as one named tuple is made up as well. -/
theorem Rule.payload_spreads_config :
    let payload : Ty := .alias "Config" (.named [("size", .alias "Count" .int), ("next", .machine)])
    let args : List Typed := [.node ⟨6, 7⟩ .int (.int 1), .node ⟨9, 13⟩ .null .null]
    let t : Typed := .node ⟨6, 13⟩ (.named [("size", .int), ("next", .null)]) .default
    2 ≤ args.length ∧
    payload.canonical = .named [("size", .int), ("next", .machine)] ∧
    Rule.payload payload ⟨5, 14⟩ args = .ok () ∧
    (Rule.payload payload ⟨5, 14⟩ args = .ok () ↔
      [("size", Ty.int), ("next", .machine)].length = args.length ∧
        Rule.payload payload ⟨5, 14⟩ [t] = .ok ()) := by
  intro payload args t
  have hp : payload.canonical = .named [("size", .int), ("next", .machine)] := rfl
  have hl : 2 ≤ args.length := Nat.le_refl 2
  exact ⟨hl, hp, rfl, (Rule.payload_spreads payload ⟨5, 14⟩ args hl).2.1 _ hp t rfl⟩

end MachineTyping
