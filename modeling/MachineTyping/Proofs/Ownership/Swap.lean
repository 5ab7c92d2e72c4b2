/-
# What a swap exchanges

`swap x` lets the callee put a value back into `x`, so it is not enough that the callee takes the
type of `x`: both must be of one type.  This module says where that is seen to.

* A **call** sees to it for every parameter.
* A **constructor** asks only that the slot of its payload accepts the argument.  That comes to the
  same where the slot is rigid, and nowhere else: a payload that is not rigid accepts a further type
  (`Ty.isRigid_iff`), and a constructor swaps a variable of it (`NewSwap.checks`).

`swaps_exchange` states both for every node of every tree that checking makes, and that the
condition on the slot is exact.
-/
import MachineTyping.Proofs.Tree.Soundness
import MachineTyping.Proofs.Type.Rigid

namespace MachineTyping

/-! ## 1. Slots -/

/-- An argument is a `swap`. -/
def Typed.Swaps (arg : Typed) : Prop := ∃ v, arg.handover? = some (.swap, v)

/-- **If the argument is a swap, it is of the slot's type**, up to aliases. -/
def Ty.Exchanges (slot : Ty) (arg : Typed) : Prop := arg.Swaps → slot.sameAs arg.ty = true

/-- What the arguments of a constructor are handed to: one argument to the payload as a whole,
several to the elements or fields of the payload. -/
def Ty.slotsFor (payload : Ty) (count : Nat) : List Ty :=
  if count = 1 then [payload]
  else match payload.canonical with
    | .tuple elems => elems
    | .named fields => fields.map Prod.snd
    | _ => []

/-- Arguments that make up a payload fill its slots, one each. -/
theorem Ty.SuppliedBy.fills {payload : Ty} {args : List Typed} (h : payload.SuppliedBy args) :
    List.Forall₂ (fun slot arg => slot.accepts arg.ty = true)
      (payload.slotsFor args.length) args := by
  unfold Ty.slotsFor
  cases h with
  | nothing hp =>
    rw [if_neg (by simp), hp]
    exact .nil
  | whole ha =>
    rw [if_pos (by simp)]
    exact .cons ha .nil
  | elements hp hl hf =>
    rw [if_neg (by omega), hp]
    exact hf
  | fields hp hl hf =>
    rw [if_neg (by omega), hp]
    exact List.forall₂_map_left_iff.mpr hf

theorem Ty.exchanges_of_isRigid {slot : Ty} {arg : Typed} (hr : slot.isRigid = true)
    (ha : slot.accepts arg.ty = true) : slot.Exchanges arg :=
  fun _ => Ty.sameAs_of_isRigid hr ha

/-! ## 2. Lawful nodes -/

theorem Typed.Lawful.call_exchanges {n : Typed} (h : n.Lawful) {f : Function}
    {args : List Typed} (hn : n.shape = .call f args) :
    List.Forall₂ (fun param arg => param.ty.Exchanges arg) f.params args := by
  cases h with
  | call ht _ =>
    cases hn
    refine ht.imp fun param arg ha => ?_
    rintro ⟨v, hv⟩
    exact ha.2 v hv
  | _ => cases hn

theorem Typed.Lawful.new_exchanges {n : Typed} (h : n.Lawful) {m : Machine}
    {args : List Typed} (hn : n.shape = .new m args) :
    List.Forall₂
      (fun slot arg => slot.accepts arg.ty = true ∧ (slot.isRigid = true → slot.Exchanges arg))
      (m.payload.slotsFor args.length) args := by
  cases h with
  | new hs _ =>
    cases hn
    refine hs.fills.imp fun slot arg ha => ⟨ha, fun hr => ?_⟩
    exact Ty.exchanges_of_isRigid hr ha
  | _ => cases hn

/-! ## 3. Slots that are not rigid -/

namespace NewSwap

/-- A machine `M` with the given payload, and a variable `x` of the given type. -/
def context (payload ty : Ty) : Context :=
  let outer := (Scope.initial.declare (.symbol (.machine ⟨"M", payload⟩))).1
  ⟨(outer.declare (.symbol (.var ⟨"x", ty, none⟩))).1, none⟩

/-- `new M(swap x)` -/
def expr : Expr := .node ⟨0, 13⟩ (.new "M" [.node ⟨6, 12⟩ (.linear .swap "x")])

/-- `swap x`, checked. -/
def arg (ty : Ty) : Typed := .node ⟨6, 12⟩ ty (.linear .swap ⟨"x", ty, none⟩)

/-- `new M(swap x)`, checked. -/
def typed (payload ty : Ty) : Typed := .node ⟨0, 13⟩ .machine (.new ⟨"M", payload⟩ [arg ty])

/-- A constructor swaps whatever its payload accepts. -/
theorem checks {payload ty : Ty} (h : payload.accepts ty = true) :
    (context payload ty).Checks expr (typed payload ty) := by
  have hm : (context payload ty).scope.lookup "M" = some (.machine ⟨"M", payload⟩) := rfl
  have hx : (context payload ty).scope.lookup "x" = some (.var ⟨"x", ty, none⟩) := rfl
  have harg : (context payload ty).Checks (.node ⟨6, 12⟩ (.linear .swap "x")) (arg ty) :=
    Context.checks_linear_iff.mpr ⟨_, hx, rfl⟩
  have hd : (Typed.handed [arg ty]).Nodup := List.nodup_singleton "x"
  exact Context.checks_new_iff.mpr
    ⟨_, hm, _, .cons harg .nil, _, rfl, .new (.whole h) hd⟩

end NewSwap

namespace Context

/-! ## 4. The result -/

/-- **Swaps exchange values of one type**, at every call in the tree of a checked expression, and at
every constructor where the slot is rigid.  A slot that is not rigid accepts what is swapped.

Rigidity cannot be done without: the payloads for which no constructor, in any context, ever swaps
a variable of another type are the rigid ones. -/
theorem swaps_exchange (ctx : Context) :
    (∀ (e : Expr) (t : Typed), (ctx.check e).verdict = .ok t → ∀ n : Typed, n.IsNodeOf t →
      (∀ f args, n.shape = .call f args →
        List.Forall₂ (fun param arg => param.ty.Exchanges arg) f.params args) ∧
      ∀ m args, n.shape = .new m args →
        List.Forall₂
          (fun slot arg => slot.accepts arg.ty = true ∧ (slot.isRigid = true → slot.Exchanges arg))
          (m.payload.slotsFor args.length) args) ∧
    ∀ payload : Ty, payload.isRigid = true ↔
      ∀ (ctx : Context) (e : Expr) (t : Typed), (ctx.check e).verdict = .ok t →
        ∀ n : Typed, n.IsNodeOf t → ∀ m arg, n.shape = .new m [arg] → m.payload = payload →
          payload.Exchanges arg := by
  constructor
  · intro e t h n hn
    have hl : n.Lawful := Checks.lawful h hn
    constructor
    · intro f args hs
      exact hl.call_exchanges hs
    · intro m args hs
      exact hl.new_exchanges hs
  · intro payload
    constructor
    · rintro hr ctx e t h n hn m arg hs rfl
      have hl : n.Lawful := Checks.lawful h hn
      cases hl.new_exchanges hs with
      | cons ha _ => exact ha.2 hr
    · intro h
      refine Ty.isRigid_iff.mpr fun ty hty => ?_
      have hx : payload.Exchanges (NewSwap.arg ty) :=
        h _ _ _ (NewSwap.checks hty) _ (.root _) _ _ rfl rfl
      exact hx ⟨_, rfl⟩

/-- `new M(swap n, f(swap r), new K(swap k))`, where all swaps go through aliases: `n` to a field of
the payload, `r` to a parameter, and `k` to a payload that is rigid. -/
theorem swaps_exchange_nested :
    let count : Ty := .alias "Count" .int
    let row : Ty := .alias "Row" (.seq count)
    let m : Machine := ⟨"M", .named [("size", .int), ("mean", .float), ("next", .machine)]⟩
    let l : Machine := ⟨"K", count⟩
    let f : Function := ⟨⟨"f", [⟨"q", .seq .int⟩], .float, none⟩, 0⟩
    let n : Variable := ⟨"n", count, none⟩
    let r : Variable := ⟨"r", row, none⟩
    let k : Variable := ⟨"k", .int, none⟩
    let symbols : List Symbol := [.machine m, .machine l, .function f, .var n, .var r, .var k]
    let scope : Scope :=
      symbols.foldl (fun scope symbol => (scope.declare (.symbol symbol)).1) .initial
    let e : Expr := .node ⟨0, 39⟩ (.new "M" [.node ⟨6, 12⟩ (.linear .swap "n"),
      .node ⟨14, 23⟩ (.call "f" [.node ⟨16, 22⟩ (.linear .swap "r")]),
      .node ⟨25, 38⟩ (.new "K" [.node ⟨31, 37⟩ (.linear .swap "k")])])
    let swapN : Typed := .node ⟨6, 12⟩ count (.linear .swap n)
    let swapR : Typed := .node ⟨16, 22⟩ row (.linear .swap r)
    let swapK : Typed := .node ⟨31, 37⟩ .int (.linear .swap k)
    let inner : Typed := .node ⟨14, 23⟩ .float (.call f [swapR])
    let next : Typed := .node ⟨25, 38⟩ .machine (.new l [swapK])
    let whole : Typed := .node ⟨0, 39⟩ .machine (.new m [swapN, inner, next])
    ((Context.mk scope none).check e).verdict = .ok whole ∧ inner.IsNodeOf whole ∧
    next.IsNodeOf whole ∧
    List.Forall₂ (fun param arg => param.ty.Exchanges arg) f.params [swapR] ∧
    List.Forall₂
      (fun (slot : Ty) arg =>
        slot.accepts arg.ty = true ∧ (slot.isRigid = true → slot.Exchanges arg))
      [.int, .float, .machine] [swapN, inner, next] ∧
    count.isRigid = true ∧ count.Exchanges swapK := by
  intro count row m l f n r k symbols scope e swapN swapR swapK inner next whole
  have hc : ((Context.mk scope none).check e).verdict = .ok whole := rfl
  have hin : inner.IsNodeOf whole := .inner (.tail _ (.head _)) (.root inner)
  have hnext : next.IsNodeOf whole := .inner (.tail _ (.tail _ (.head _))) (.root next)
  obtain ⟨hnodes, hrigid⟩ := swaps_exchange ⟨scope, none⟩
  exact ⟨hc, hin, hnext, (hnodes e whole hc inner hin).1 f _ rfl,
    (hnodes e whole hc whole (.root whole)).2 m _ rfl, rfl,
    (hrigid count).mp rfl _ e whole hc next hnext l _ rfl rfl⟩

/-- So constructors do not always exchange values of one type: where the payload is `any`, a
variable of type `int` may be swapped. -/
theorem not_every_new_exchanges :
    ¬ ∀ (ctx : Context) (e : Expr) (t : Typed), (ctx.check e).verdict = .ok t →
      ∀ n : Typed, n.IsNodeOf t → ∀ m args, n.shape = .new m args →
        List.Forall₂ Ty.Exchanges (m.payload.slotsFor args.length) args := by
  intro h
  have hc := NewSwap.checks (Ty.any_accepts .int)
  cases h _ _ _ hc _ (.root _) _ _ rfl with
  | cons hx _ =>
    have hs : Ty.any.sameAs .int = true := hx ⟨_, rfl⟩
    exact absurd hs (by decide)

end Context

end MachineTyping
