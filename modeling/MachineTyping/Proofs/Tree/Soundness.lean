/-
# Soundness

The tree of a checked expression, or of a checked assignment target, can be trusted at every node
(`Context.trees_lawful`): the node obeys the rule of its kind, and the symbols in it are those
that the context binds.

The rules are obeyed because the checker follows them (`Checks.faithful`).  For the symbols two
facts come together:

* what stands anywhere in an elaborated tree was elaborated from some expression itself
  (`Elaborates.node`), so its symbol was found by looking up a name;
* in a reachable scope a symbol that was found has the name that was looked up, so the node can be
  judged without knowing the expression (`Elaborates.bound`).
-/
import MachineTyping.Proofs.Scope.Reachable
import MachineTyping.Proofs.Tree.Elaboration

namespace MachineTyping

namespace Context

variable {ctx : Context}

/-! ## 1. The nodes of an elaborated tree -/

/-- What stands on the right of a pointwise relation is related to something on the left. -/
theorem exists_of_forall₂_mem {α β : Type} {R : α → β → Prop} :
    ∀ {as : List α} {bs : List β}, List.Forall₂ R as bs → ∀ {b : β}, b ∈ bs → ∃ a ∈ as, R a b
  | _, _, .cons hab hs, b, hb => by
    rcases List.mem_cons.mp hb with rfl | hb
    · exact ⟨_, List.mem_cons_self, hab⟩
    · obtain ⟨a, ha, hab⟩ := exists_of_forall₂_mem hs hb
      exact ⟨a, List.mem_cons_of_mem _ ha, hab⟩

/-- A part of an elaborated tree elaborates something. -/
theorem Elaborates.part : ∀ {e : Expr} {t part : Typed}, ctx.Elaborates e t →
    part ∈ t.children → ∃ e', ctx.Elaborates e' part
  | _, _, _, .unary ha, hp | _, _, _, .component ha _, hp | _, _, _, .field ha, hp
  | _, _, _, .keys ha, hp | _, _, _, .values ha, hp | _, _, _, .sizeof ha, hp
  | _, _, _, .cast ha _, hp | _, _, _, .coerce ha _ _, hp => by
    obtain rfl := List.mem_singleton.mp hp
    exact ⟨_, ha⟩
  | _, _, _, .binary _ ha hb, hp | _, _, _, .member ha hb, hp
  | _, _, _, .seqItem ha hb _, hp | _, _, _, .mapItem ha hb _, hp => by
    rcases List.mem_pair.mp hp with rfl | rfl
    · exact ⟨_, ha⟩
    · exact ⟨_, hb⟩
  | _, _, _, .tuple hs, hp | _, _, _, .named _ hs, hp | _, _, _, .call _ hs, hp
  | _, _, _, .new _ hs, hp => by
    obtain ⟨e, -, he⟩ := exists_of_forall₂_mem hs hp
    exact ⟨e, he⟩
  | _, _, _, .identity ha _ _, hp => ha.part hp

/-- **Every node of an elaborated tree elaborates something.** -/
theorem Elaborates.node {e : Expr} {n t : Typed} (h : ctx.Elaborates e t)
    (hn : n.IsNodeOf t) : ∃ e', ctx.Elaborates e' n := by
  induction hn generalizing e with
  | root => exact ⟨e, h⟩
  | inner hp _ ih =>
    obtain ⟨e', he'⟩ := h.part hp
    exact ih he'

/-- The symbol of an elaborated node is the binding of its own name. -/
theorem Elaborates.bound (ho : ctx.scope.OwnNames) : ∀ {e : Expr} {t : Typed},
    ctx.Elaborates e t → t.Bound ctx
  | _, _, .var hs | _, _, .element hs | _, _, .event hs | _, _, .linear hs | _, _, .halt hs
  | _, _, .call hs _ | _, _, .new hs _ => ho.lookup_own hs
  | _, _, .self hm => hm
  | _, _, .identity ha _ _ => ha.bound ho
  | _, _, .int _ | _, _, .float _ | _, _, .bool | _, _, .null | _, _, .choice
  | _, _, .fairChoice | _, _, .default _ | _, _, .unary _ | _, _, .binary _ _ _
  | _, _, .member _ _ | _, _, .tuple _ | _, _, .named _ _ | _, _, .component _ _
  | _, _, .field _ | _, _, .seqItem _ _ _ | _, _, .mapItem _ _ _ | _, _, .keys _
  | _, _, .values _ | _, _, .sizeof _ | _, _, .cast _ _ | _, _, .coerce _ _ _ => trivial

/-- The tree of a checked expression is lawful and bound at every node. -/
theorem check_everywhere (ho : ctx.scope.OwnNames) {e : Expr} {t : Typed}
    (h : (ctx.check e).verdict = .ok t) : t.Everywhere fun n => n.Lawful ∧ n.Bound ctx := by
  obtain ⟨he, hl⟩ := Checks.faithful h
  intro n hn
  obtain ⟨e', he'⟩ := he.node hn
  exact ⟨hl n hn, he'.bound ho⟩

/-! ## 2. Assignment targets -/

/-- The tree of an assignment target is made by the rules for the parts of an expression. -/
theorem checkLvalue_everywhere (ho : ctx.scope.OwnNames) : ∀ {target : Lvalue} {t : Typed},
    (ctx.checkLvalue target).verdict = .ok t →
      t.Everywhere fun n => n.Lawful ∧ n.Bound ctx
  | .node span (.var name), t, h => by
    have h : Rule.var ctx.scope span name = .ok t := h
    obtain ⟨v, hv, rfl⟩ := Rule.var_eq_ok_iff.mp h
    exact .leaf ⟨.var, ho.lookup_own hv⟩ rfl
  | .node span (.field base name), t, h => by
    have hc : ctx.checkLvalue (.node span (.field base name)) =
        (ctx.checkLvalue base >>= fun b => .of (Rule.field span b name)) := rfl
    rw [hc] at h
    obtain ⟨b, hb, h⟩ := Outcome.bind_eq_ok_iff.mp h
    obtain ⟨ty, rfl, hl⟩ := Rule.field_eq_ok_iff.mp h
    have hbs := checkLvalue_everywhere ho hb
    exact .one ⟨hl, trivial⟩ rfl hbs
  | .node span (.component base index), t, h => by
    have hc : ctx.checkLvalue (.node span (.component base index)) =
        (ctx.checkLvalue base >>= fun b => .of (Rule.component span b index)) := rfl
    rw [hc] at h
    obtain ⟨b, hb, h⟩ := Outcome.bind_eq_ok_iff.mp h
    obtain ⟨position, ty, -, rfl, hl⟩ := Rule.component_eq_ok_iff.mp h
    have hbs := checkLvalue_everywhere ho hb
    exact .one ⟨hl, trivial⟩ rfl hbs
  | .node span (.index base index), t, h => by
    have hc : ctx.checkLvalue (.node span (.index base index)) =
        (ctx.checkLvalue base >>= fun b => ctx.check index >>= fun i =>
          .of (Rule.index span b i)) := rfl
    rw [hc] at h
    obtain ⟨b, hb, h⟩ := Outcome.bind_eq_ok_iff.mp h
    obtain ⟨i, hi, h⟩ := Outcome.bind_eq_ok_iff.mp h
    obtain ⟨ty, hc, hl⟩ := Rule.index_eq_ok_iff.mp h
    have hbs := checkLvalue_everywhere ho hb
    have his := check_everywhere ho hi
    rcases hc with ⟨-, rfl⟩ | ⟨-, rfl⟩
    · exact .two ⟨hl, trivial⟩ rfl hbs his
    · exact .two ⟨hl, trivial⟩ rfl hbs his

/-! ## 3. The result -/

/-- **Trees can be trusted.**  In a reachable scope, and for any owner, every node of what an
expression or an assignment target was checked to is lawful, and its symbols are those that the
context binds. -/
theorem trees_lawful (ctx : Context) (hs : ctx.scope.Reachable) :
    (∀ (e : Expr) (t : Typed), (ctx.check e).verdict = .ok t →
      t.Everywhere fun n => n.Lawful ∧ n.Bound ctx) ∧
    ∀ (target : Lvalue) (t : Typed), (ctx.checkLvalue target).verdict = .ok t →
      t.Everywhere fun n => n.Lawful ∧ n.Bound ctx := by
  have ho : ctx.scope.OwnNames := hs.ownNames
  constructor
  · intro e t h
    exact check_everywhere ho h
  · intro target t h
    exact checkLvalue_everywhere ho h

/-- A call that swaps a variable for which an alias stands, seen from an inner block. -/
theorem trees_lawful_swap :
    let pair : Ty := .alias "Pair" (.tuple [.int, .any])
    let f : Function := ⟨⟨"f", [⟨"a", .tuple [.int, .any]⟩, ⟨"b", .any⟩], pair, none⟩, 0⟩
    let outer := (Scope.initial.declare (.symbol (.var ⟨"p", pair, none⟩))).1
    let ctx : Context := ⟨(outer.declare (.symbol (.function f))).1.push, some ⟨"M", .null⟩⟩
    let swap : Expr := .node ⟨2, 8⟩ (.linear .swap "p")
    let call : Expr := .node ⟨0, 15⟩ (.call "f" [swap, .node ⟨10, 14⟩ .self])
    let first : Expr := .node ⟨0, 17⟩ (.component call "0")
    let second : Lvalue := .node ⟨0, 3⟩ (.component (.node ⟨0, 1⟩ (.var "p")) "1")
    ctx.scope.Reachable ∧
    (∃ t, (ctx.check first).verdict = .ok t ∧ t.Everywhere fun n => n.Lawful ∧ n.Bound ctx) ∧
    ∃ t, (ctx.checkLvalue second).verdict = .ok t ∧
      t.Everywhere fun n => n.Lawful ∧ n.Bound ctx := by
  intro pair f outer ctx swap call first second
  have hs : ctx.scope.Reachable := ((Scope.Reachable.initial.declare _).declare _).push
  have h := trees_lawful ctx hs
  exact ⟨hs, ⟨_, rfl, h.1 first _ rfl⟩, ⟨_, rfl, h.2 second _ rfl⟩⟩

end Context

end MachineTyping
