/-
# What a list of arguments hands over

`move x` and `swap x` hand a variable over, and within one list of arguments a variable ought to be
handed over at most once.  An argument need not BE such a reference to hand something over, it may
have references inside: in a tuple, under an operator, in an index and so on.  Only what stands in
a list of arguments of its own, of a call or constructor inside, is that list's business.

* `Typed.handovers` lists what a tree hands over at any depth, and `Typed.buried` what of it lies
  below the root.
* The checker looks at the roots of the arguments, and sees to it that these hand over each
  variable at most once.  So a variable is handed over at most once if nothing of it is buried,
  and `handed_over_once_iff` says exactly for which others that is still so.
* Buried references are not counted by anyone: `exists_handovers_count` hands one variable over as
  often as one likes in a single argument.
-/
import MachineTyping.Proofs.Tree.Elaboration

namespace MachineTyping

/-! ## 1. References at any depth -/

mutual

/-- **The variables that a tree hands over**, each as often as it does.  The arguments of calls and
constructors are left out. -/
def Typed.handovers : Typed → List String
  | .node _ _ shape => shape.handovers

/-- The variables that a shape hands over. -/
def Typed.Shape.handovers : Typed.Shape → List String
  | .linear _ v => [v.name]
  | .int _ | .float _ | .bool _ | .null | .var _ | .element _ | .event _ | .self _
  | .choice | .fairChoice | .default | .call _ _ | .new _ _ => []
  | .unary _ t | .component t _ | .field t _ | .keys t | .values t | .sizeof t
  | .cast t | .coerce t => t.handovers
  | .binary _ l r | .seqItem l r | .mapItem l r | .hasKey l r => l.handovers ++ r.handovers
  | .tuple ts => Typed.handoversList ts
  | .named fields => Typed.handoversFields fields

/-- The variables that trees hand over. -/
def Typed.handoversList : List Typed → List String
  | [] => []
  | t :: ts => t.handovers ++ Typed.handoversList ts

/-- The variables that the values of fields hand over. -/
def Typed.handoversFields : List (String × Typed) → List String
  | [] => []
  | (_, t) :: fields => t.handovers ++ Typed.handoversFields fields

end

theorem Typed.handoversList_eq_flatMap (ts : List Typed) :
    Typed.handoversList ts = ts.flatMap Typed.handovers := by
  induction ts with
  | nil => rfl
  | cons t ts ih => rw [Typed.handoversList, ih, List.flatMap_cons]

theorem Typed.handoversFields_eq_flatMap (fields : List (String × Typed)) :
    Typed.handoversFields fields = (fields.map Prod.snd).flatMap Typed.handovers := by
  induction fields with
  | nil => rfl
  | cons field fields ih =>
    rw [Typed.handoversFields, ih, List.map_cons, List.flatMap_cons]

/-- What a tree hands over below its root. -/
def Typed.buried (t : Typed) : List String :=
  match t.shape with
  | .call _ _ | .new _ _ => []
  | _ => t.children.flatMap Typed.handovers

/-- What arguments hand over below their roots. -/
def Typed.buriedIn (args : List Typed) : List String := args.flatMap Typed.buried

/-- A tree hands over what its root does, and what is buried in it. -/
theorem Typed.handovers_eq (t : Typed) : t.handovers = Typed.handed [t] ++ t.buried := by
  obtain ⟨span, ty, shape⟩ := t
  cases shape with
  | tuple ts => exact Typed.handoversList_eq_flatMap ts
  | named fields => exact Typed.handoversFields_eq_flatMap fields
  | unary _ t | component t _ | field t _ | keys t | values t | sizeof t | cast t | coerce t =>
    exact (List.append_nil t.handovers).symm
  | binary _ l r | seqItem l r | mapItem l r | hasKey l r =>
    exact congrArg (l.handovers ++ ·) (List.append_nil r.handovers).symm
  | _ => rfl

/-- **Arguments hand over a variable as often as their roots do and as it is buried.** -/
theorem Typed.count_handoversList (x : String) (args : List Typed) :
    (Typed.handoversList args).count x =
      (Typed.handed args).count x + (Typed.buriedIn args).count x := by
  induction args with
  | nil => rfl
  | cons arg args ih =>
    have hb : Typed.buriedIn (arg :: args) = arg.buried ++ Typed.buriedIn args :=
      List.flatMap_cons
    rw [Typed.handoversList, Typed.handed_cons, hb, Typed.handovers_eq]
    simp only [List.count_append, ih]
    omega

/-- Where the roots hand over nothing twice, a variable is handed over twice exactly if it is
buried twice, or buried besides being handed over by a root. -/
theorem Typed.count_handoversList_le_one_iff {args : List Typed} (h : (Typed.handed args).Nodup)
    (x : String) :
    (Typed.handoversList args).count x ≤ 1 ↔
      x ∉ Typed.buriedIn args ∨
        (Typed.buriedIn args).count x = 1 ∧ x ∉ Typed.handed args := by
  have hroots : (Typed.handed args).count x ≤ 1 := List.nodup_iff_count_le_one.mp h x
  rw [Typed.count_handoversList, ← List.count_eq_zero, ← List.count_eq_zero]
  omega

/-! ## 2. Accepted arguments -/

/-- The arguments of a call or constructor. -/
def Typed.arguments? (t : Typed) : Option (List Typed) :=
  match t.shape with
  | .call _ args | .new _ args => some args
  | _ => none

theorem Typed.Lawful.handed_nodup {n : Typed} (h : n.Lawful) {args : List Typed}
    (ha : n.arguments? = some args) : (Typed.handed args).Nodup := by
  cases h with
  | call _ hd =>
    cases ha
    exact hd
  | new _ hd =>
    cases ha
    exact hd
  | _ => cases ha

namespace Context

theorem handed_nodup_of_checkArguments {ctx : Context} {args : List Expr} {ts : List Typed}
    (h : (ctx.checkArguments args).verdict = .ok ts) : (Typed.handed ts).Nodup :=
  fresh_of_none.mp (checkArgs_eq_ok_iff.mp h).2

/-- **A variable that is not buried is handed over at most once**, in every list of arguments that
is accepted, on its own or as part of a call or constructor anywhere in an expression.  A variable
that is buried is handed over once too if it is buried once, and no argument is itself a reference
to it; otherwise it is handed over more than once. -/
theorem handed_over_once_iff (ctx : Context) :
    (∀ (args : List Expr) (ts : List Typed), (ctx.checkArguments args).verdict = .ok ts →
      ∀ x, (Typed.handoversList ts).count x ≤ 1 ↔
        x ∉ Typed.buriedIn ts ∨ (Typed.buriedIn ts).count x = 1 ∧ x ∉ Typed.handed ts) ∧
    ∀ (e : Expr) (t : Typed), (ctx.check e).verdict = .ok t →
      ∀ (n : Typed) (ts : List Typed), n.IsNodeOf t → n.arguments? = some ts →
        ∀ x, (Typed.handoversList ts).count x ≤ 1 ↔
          x ∉ Typed.buriedIn ts ∨ (Typed.buriedIn ts).count x = 1 ∧ x ∉ Typed.handed ts := by
  constructor
  · intro args ts h x
    exact Typed.count_handoversList_le_one_iff (handed_nodup_of_checkArguments h) x
  · intro e t h n ts hn ha x
    have hl : n.Lawful := Checks.lawful h hn
    exact Typed.count_handoversList_le_one_iff (hl.handed_nodup ha) x

/-- `f(move a, (swap b, 1), g(move a))`.  The list of `f` hands `a` over at a root, and `b` is buried in
it once; that `g` is given `a` is the business of the list of `g`. -/
theorem handed_over_once_iff_nested :
    let a : Variable := ⟨"a", .int, none⟩
    let b : Variable := ⟨"b", .int, none⟩
    let g : Function := ⟨⟨"g", [⟨"p", .int⟩], .int, none⟩, 0⟩
    let f : Function := ⟨⟨"f", [⟨"p", .int⟩, ⟨"q", .any⟩, ⟨"r", .int⟩], .null, none⟩, 1⟩
    let symbols : List Symbol := [.function f, .function g, .var a, .var b]
    let scope : Scope :=
      symbols.foldl (fun scope symbol => (scope.declare (.symbol symbol)).1) .initial
    let args : List Expr := [.node ⟨2, 8⟩ (.linear .move "a"),
      .node ⟨10, 21⟩ (.tuple [.node ⟨11, 17⟩ (.linear .swap "b"), .node ⟨19, 20⟩ (.int "1")]),
      .node ⟨23, 32⟩ (.call "g" [.node ⟨25, 31⟩ (.linear .move "a")])]
    let given : Typed := .node ⟨25, 31⟩ .int (.linear .move a)
    let inner : Typed := .node ⟨23, 32⟩ .int (.call g [given])
    let pair : Typed := .node ⟨10, 21⟩ (.tuple [.int, .int])
      (.tuple [.node ⟨11, 17⟩ .int (.linear .swap b), .node ⟨19, 20⟩ .int (.int 1)])
    let ts : List Typed := [.node ⟨2, 8⟩ .int (.linear .move a), pair, inner]
    let whole : Typed := .node ⟨0, 33⟩ .null (.call f ts)
    ((Context.mk scope none).checkArguments args).verdict = .ok ts ∧
    ((Context.mk scope none).check (.node ⟨0, 33⟩ (.call "f" args))).verdict = .ok whole ∧
    (Typed.handoversList ts).count "a" ≤ 1 ∧ (Typed.handoversList ts).count "b" ≤ 1 ∧
    inner.IsNodeOf whole ∧ (Typed.handoversList [given]).count "a" ≤ 1 := by
  intro a b g f symbols scope args given inner pair ts whole
  have hargs : ((Context.mk scope none).checkArguments args).verdict = .ok ts := rfl
  have hcall : ((Context.mk scope none).check (.node ⟨0, 33⟩ (.call "f" args))).verdict =
      .ok whole := rfl
  have hin : inner.IsNodeOf whole := .inner (.tail _ (.tail _ (.head _))) (.root inner)
  have ha : "a" ∉ Typed.buriedIn ts := by decide
  have hb : (Typed.buriedIn ts).count "b" = 1 ∧ "b" ∉ Typed.handed ts := by decide
  have hg : "a" ∉ Typed.buriedIn [given] := by decide
  obtain ⟨hlist, hnode⟩ := handed_over_once_iff ⟨scope, none⟩
  refine ⟨hargs, hcall, ?_, ?_, hin, ?_⟩
  · exact (hlist args ts hargs "a").mpr (.inl ha)
  · exact (hlist args ts hargs "b").mpr (.inr hb)
  · exact (hnode _ whole hcall inner [given] hin rfl "a").mpr (.inl hg)

end Context

/-! ## 3. Hiding references -/

namespace Hiding

/-- A variable `x`. -/
def context : Context :=
  ⟨(Scope.initial.declare (.symbol (.var ⟨"x", .int, none⟩))).1, none⟩

/-- `move x` -/
def reference : Expr := .node ⟨1, 7⟩ (.linear .move "x")

/-- `move x`, checked. -/
def moved : Typed := .node ⟨1, 7⟩ .int (.linear .move ⟨"x", .int, none⟩)

/-- The tuple of `count` references is accepted as an argument. -/
theorem checks (count : Nat) :
    (context.checkArguments [.node ⟨0, 8⟩ (.tuple (List.replicate count reference))]).verdict =
      .ok [Rule.tuple ⟨0, 8⟩ (List.replicate count moved)] := by
  have hx : context.scope.lookup "x" = some (.var ⟨"x", .int, none⟩) := rfl
  have hone : context.Checks reference moved := Context.checks_linear_iff.mpr ⟨_, hx, rfl⟩
  have hall : List.Forall₂ context.Checks (List.replicate count reference)
      (List.replicate count moved) := by
    induction count with
    | zero => exact .nil
    | succ count ih => exact .cons hone ih
  have htuple : context.Checks (.node ⟨0, 8⟩ (.tuple (List.replicate count reference)))
      (Rule.tuple ⟨0, 8⟩ (List.replicate count moved)) :=
    Context.checks_tuple_iff.mpr ⟨_, hall, _, rfl, .tuple⟩
  exact Context.checkArgs_eq_ok_iff.mpr ⟨.cons htuple .nil, fresh_nil []⟩

theorem handoversList_moved (count : Nat) :
    Typed.handoversList (List.replicate count moved) = List.replicate count "x" := by
  induction count with
  | zero => rfl
  | succ count ih => exact congrArg ("x" :: ·) ih

end Hiding

/-- **Buried references escape**: one argument may hand a variable over any number of times. -/
theorem Context.exists_handovers_count (count : Nat) :
    ∃ (ctx : Context) (args : List Expr) (ts : List Typed),
      (ctx.checkArguments args).verdict = .ok ts ∧ (Typed.handoversList ts).count "x" = count := by
  refine ⟨_, _, _, Hiding.checks count, ?_⟩
  have hs : Typed.handoversList [Rule.tuple ⟨0, 8⟩ (List.replicate count Hiding.moved)] =
      Typed.handoversList (List.replicate count Hiding.moved) ++ [] := rfl
  rw [hs, List.append_nil, Hiding.handoversList_moved]
  exact List.count_replicate_self

/-- So it is not true that accepted arguments hand over each variable at most once. -/
theorem Context.not_always_handed_over_once :
    ¬ ∀ (ctx : Context) (args : List Expr) (ts : List Typed),
      (ctx.checkArguments args).verdict = .ok ts →
        ∀ x, (Typed.handoversList ts).count x ≤ 1 := by
  intro h
  obtain ⟨ctx, args, ts, hts, hcount⟩ := exists_handovers_count 2
  have hle := h ctx args ts hts "x"
  rw [hcount] at hle
  exact absurd hle (by decide)

end MachineTyping
