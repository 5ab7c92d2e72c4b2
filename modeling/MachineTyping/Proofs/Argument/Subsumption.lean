/-
# Arguments of smaller types

An expression may stand wherever an argument of its type may, and so may one whose type is accepted
in its stead.  This is subsumption, for one argument of a function or a constructor, for the key of
`in` and for an index (`Context.argument_subsumption`).  A `move` or a `swap` may not be put in: a
swap must be of exactly the parameter's type, and both hand over a variable that may be handed over
already.

There is no rule for it in the checker.  It holds since each of the forms asks of its parts only that
the type which is wanted accepts theirs, and accepting is transitive.
-/
import MachineTyping.Proofs.Argument.Wanted

namespace MachineTyping

/-- One element on the right may be replaced by one that is related to the same. -/
theorem forall₂_replace {α β : Type} {R : α → β → Prop} {as : List α} {before after : List β}
    {b c : β} (h : List.Forall₂ R as (before ++ b :: after)) (hbc : ∀ a, R a b → R a c) :
    List.Forall₂ R as (before ++ c :: after) := by
  obtain ⟨as₁, a, as₂, rfl, h₁, hab, h₂⟩ := Context.forall₂_append_cons_iff.mp h.flip
  exact List.rel_append h₁.flip (.cons (hbc a hab) h₂.flip)

namespace Context

/-- **Argument subsumption.**  In a call, a constructor, `k in m` or `e[i]` that is accepted, an
argument, the key or the index may be replaced by any expression that is no `move` or `swap`, and
whose type the type of the one that it replaces accepts.  The whole is accepted again, and has the
same type. -/
theorem argument_subsumption (ctx : Context) (layer : Expr.Layer) (e d : Expr) (v t u : Typed)
    (hp : layer.slot.IsArgument) (hv : ctx.Checks (layer.fill e) v) (he : ctx.Checks e t)
    (hd : ctx.Checks d u) (hu : u.handover? = none) (ha : t.ty.accepts u.ty = true) :
    ∃ w, ctx.Checks (layer.fill d) w ∧ w.ty = v.ty ∧ w.span = v.span := by
  obtain ⟨span, place⟩ := layer
  obtain ⟨wanted, ts, t', us, hw, ht', hfit, hn, hspan⟩ := Checks.wants hp hv
  obtain rfl := he.unique ht'
  have hfit' : List.Forall₂ place.Fits wanted (ts ++ u :: us) := by
    refine forall₂_replace hfit fun want h => ?_
    exact Expr.Slot.fits_of_accepts (Ty.accepts_trans h.accepts ha) hu
  obtain ⟨w, hw', hty, hspan'⟩ := hw.checks hd hfit' (Typed.nodup_handed_replace hn hu)
  exact ⟨w, hw', hty, hspan'.trans hspan.symm⟩

/-- `f(swap p, move q)` takes a machine and an event, and `p` is of type `Peer`, which is `machine`.
Then `null` may be passed instead of `swap p`. -/
theorem argument_subsumption_null :
    let peer : Ty := .alias "Peer" .machine
    let p : Variable := ⟨"p", peer, none⟩
    let q : Variable := ⟨"q", .event, none⟩
    let f : Function := ⟨⟨"f", [⟨"a", .machine⟩, ⟨"b", .event⟩], .float, none⟩, 0⟩
    let ctx : Context :=
      ⟨⟨⟨[("f", .function f), ("q", .var q), ("p", .var p)], []⟩, []⟩, none⟩
    let layer : Expr.Layer := ⟨⟨0, 17⟩, .arg "f" [] [.node ⟨10, 16⟩ (.linear .move "q")]⟩
    let e : Expr := .node ⟨2, 8⟩ (.linear .swap "p")
    let d : Expr := .node ⟨2, 6⟩ .null
    let t : Typed := .node ⟨2, 8⟩ peer (.linear .swap p)
    let u : Typed := .node ⟨2, 6⟩ .null .null
    let v : Typed := .node ⟨0, 17⟩ .float (.call f [t, .node ⟨10, 16⟩ .event (.linear .move q)])
    (layer.slot.IsArgument ∧ ctx.Checks (layer.fill e) v ∧ ctx.Checks e t ∧ ctx.Checks d u ∧
      u.handover? = none ∧ t.ty.accepts u.ty = true) ∧
    ∃ w, ctx.Checks (layer.fill d) w ∧ w.ty = .float ∧ w.span = ⟨0, 17⟩ := by
  intro peer p q f ctx layer e d t u v
  have hp : layer.slot.IsArgument := .arg _ _ _
  have hv : ctx.Checks (layer.fill e) v := rfl
  have he : ctx.Checks e t := rfl
  have hd : ctx.Checks d u := rfl
  exact ⟨⟨hp, hv, he, hd, rfl, rfl⟩, argument_subsumption ctx layer e d v t u hp hv he hd rfl rfl⟩

end Context

end MachineTyping
