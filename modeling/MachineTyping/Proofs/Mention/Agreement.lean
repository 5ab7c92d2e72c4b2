/-
# What an expression mentions

An expression is checked in a context, but it can only ask about what it mentions
(`Expr.mentions`): the value names and type names that are written in it, and the machine that the
body belongs to if it says `this`.  Type names that are built in cannot be mentioned, because they
are never looked up; `halt` is a mention of the name that its event is bound to.

Two contexts that agree on the mentions of an expression check it to the same outcome
(`check_eq_of_agree`): the same tree, or the same error, and the same choices met.  They may differ
in anything else, in the number of their frames to begin with.  The induction is on the expression
and, where a type is written, on the type; a context is consulted at the leaves only.
-/
import MachineTyping.Checker

namespace MachineTyping

/-! ## 1. Mentions -/

/-- A type name that is not built in, and so has to be looked up. -/
structure TypeName where
  name : String
  notBuiltin : builtinType? name = none
deriving DecidableEq

/-- The name, if it is not built in. -/
def TypeName.of (name : String) : List TypeName :=
  match h : builtinType? name with
  | none => [⟨name, h⟩]
  | some _ => []

theorem TypeName.of_eq {name : String} (h : builtinType? name = none) :
    TypeName.of name = [⟨name, h⟩] := by
  unfold TypeName.of
  split
  · rfl
  · rename_i ty hb
    rw [h] at hb
    cases hb

theorem TypeName.of_eq_nil {name : String} (h : (builtinType? name).isSome) :
    TypeName.of name = [] := by
  unfold TypeName.of
  split
  · rename_i hb
    rw [hb] at h
    cases h
  · rfl

/-- Something of its context that an expression can ask about. -/
inductive Mention where
  /-- What a value name is bound to. -/
  | value (name : String)
  /-- What a type name is bound to. -/
  | type (name : TypeName)
  /-- The machine that the body belongs to. -/
  | owner
deriving DecidableEq

mutual

/-- The names in a written type, but for those that are built in. -/
def TypeRef.names : TypeRef → List TypeName
  | .node _ form => form.names

/-- The names in a form of written type. -/
def TypeRef.Form.names : TypeRef.Form → List TypeName
  | .name name => TypeName.of name
  | .tuple elems => TypeRef.namesList elems
  | .named fields => TypeRef.namesFields fields
  | .seq elem => elem.names
  | .map key value => key.names ++ value.names

/-- The names in written types. -/
def TypeRef.namesList : List TypeRef → List TypeName
  | [] => []
  | ref :: refs => ref.names ++ TypeRef.namesList refs

/-- The names in the types of written fields. -/
def TypeRef.namesFields : List (String × TypeRef) → List TypeName
  | [] => []
  | (_, ref) :: fields => ref.names ++ TypeRef.namesFields fields

end

mutual

/-- **What an expression mentions.** -/
def Expr.mentions : Expr → List Mention
  | .node _ form => form.mentions

/-- What a form of expression mentions. -/
def Expr.Form.mentions : Expr.Form → List Mention
  | .name name | .linear _ name => [.value name]
  | .halt => [.value Event.haltName]
  | .self => [.owner]
  | .int _ | .float _ | .bool _ | .null | .choice | .fairChoice => []
  | .unary _ e | .component e _ | .field e _ | .keys e | .values e | .sizeof e => e.mentions
  | .binary _ l r | .index l r => l.mentions ++ r.mentions
  | .tuple elems => Expr.mentionsList elems
  | .named fields => Expr.mentionsFields fields
  | .default ref => ref.names.map .type
  | .call callee args => .value callee :: Expr.mentionsList args
  | .new machine args => .value machine :: Expr.mentionsList args
  | .cast e ref | .coerce e ref => e.mentions ++ ref.names.map .type

/-- What expressions mention. -/
def Expr.mentionsList : List Expr → List Mention
  | [] => []
  | e :: es => e.mentions ++ Expr.mentionsList es

/-- What the values of fields mention. -/
def Expr.mentionsFields : List (String × Expr) → List Mention
  | [] => []
  | (_, e) :: fields => e.mentions ++ Expr.mentionsFields fields

end

/-! ## 2. Agreement -/

/-- Two contexts give the same answer about a mention. -/
def Context.AgreesOn (c d : Context) : Mention → Prop
  | .value name => c.scope.lookup name = d.scope.lookup name
  | .type n => c.scope.lookupType n.name = d.scope.lookupType n.name
  | .owner => c.owner = d.owner

/-- **Two contexts give the same answers about all of the mentions.** -/
def Context.Agree (c d : Context) (mentions : List Mention) : Prop :=
  ∀ m ∈ mentions, c.AgreesOn d m

namespace Context

variable {c d : Context}

instance : ∀ m : Mention, Decidable (c.AgreesOn d m)
  | .value name => inferInstanceAs (Decidable (c.scope.lookup name = d.scope.lookup name))
  | .type n => inferInstanceAs (Decidable (c.scope.lookupType n.name = d.scope.lookupType n.name))
  | .owner => inferInstanceAs (Decidable (c.owner = d.owner))

instance (mentions : List Mention) : Decidable (c.Agree d mentions) :=
  inferInstanceAs (Decidable (∀ m ∈ mentions, c.AgreesOn d m))

theorem AgreesOn.refl (ctx : Context) (m : Mention) : ctx.AgreesOn ctx m := by
  cases m <;> rfl

theorem AgreesOn.trans {a b c : Context} {m : Mention} (hab : a.AgreesOn b m)
    (hbc : b.AgreesOn c m) : a.AgreesOn c m := by
  cases m <;> exact Eq.trans hab hbc

theorem Agree.append {before after : List Mention} (h : c.Agree d (before ++ after)) :
    c.Agree d before ∧ c.Agree d after :=
  List.forall_mem_append.mp h

theorem Agree.cons {m : Mention} {mentions : List Mention} (h : c.Agree d (m :: mentions)) :
    c.AgreesOn d m ∧ c.Agree d mentions :=
  List.forall_mem_cons.mp h

theorem Agree.one {m : Mention} (h : c.Agree d [m]) : c.AgreesOn d m := h.cons.1

theorem Agree.types {names : List TypeName} (h : c.Agree d (names.map .type)) :
    ∀ n ∈ names, c.scope.lookupType n.name = d.scope.lookupType n.name :=
  fun n hn => h (.type n) (List.mem_map_of_mem hn)

end Context

/-! ## 3. Rules that look up a name -/

section Rules

variable {s s' : Scope} {span : Span} {name : String}

theorem Rule.name_eq_of_lookup (h : s.lookup name = s'.lookup name) :
    Rule.name s span name = Rule.name s' span name := by
  unfold Rule.name
  rw [h]

theorem Rule.halt_eq_of_lookup (h : s.lookup Event.haltName = s'.lookup Event.haltName) :
    Rule.halt s span = Rule.halt s' span := by
  unfold Rule.halt Scope.lookupEvent
  rw [h]

theorem Rule.linear_eq_of_lookup {mode : LinearMode} (h : s.lookup name = s'.lookup name) :
    Rule.linear s span mode name = Rule.linear s' span mode name := by
  unfold Rule.linear Scope.lookupVar
  rw [h]

theorem Rule.callee_eq_of_lookup {count : Nat} (h : s.lookup name = s'.lookup name) :
    Rule.callee s span name count = Rule.callee s' span name count := by
  unfold Rule.callee Scope.lookupFunction
  rw [h]

theorem Rule.constructor_eq_of_lookup (h : s.lookup name = s'.lookup name) :
    Rule.constructor s span name = Rule.constructor s' span name := by
  unfold Rule.constructor Scope.lookupMachine
  rw [h]

end Rules

/-! ## 4. Written types -/

theorem Verdict.bind_congr {α β : Type} {x y : Verdict α} {f g : α → Verdict β} (hx : x = y)
    (h : ∀ a, f a = g a) : (x >>= f) = (y >>= g) := by
  rw [hx, funext h]

section Types

variable {s s' : Scope}

/-- A built-in name has one meaning in all scopes; any other is looked up. -/
theorem Scope.typeNamed_eq_of_lookupType {span : Span} {name : String}
    (h : ∀ n ∈ TypeName.of name, s.lookupType n.name = s'.lookupType n.name) :
    s.typeNamed span name = s'.typeNamed span name := by
  unfold Scope.typeNamed
  cases hb : builtinType? name with
  | some ty => rfl
  | none =>
    rw [TypeName.of_eq hb] at h
    have hl : s.lookupType name = s'.lookupType name := h ⟨name, hb⟩ List.mem_cons_self
    simp only [hl]

mutual

/-- **A written type means the same in scopes in which its names do.** -/
theorem Scope.resolve_eq_of_lookupType : ∀ ref : TypeRef,
    (∀ n ∈ ref.names, s.lookupType n.name = s'.lookupType n.name) → s.resolve ref = s'.resolve ref
  | .node _ (.name _), h => Scope.typeNamed_eq_of_lookupType h
  | .node _ (.tuple elems), h =>
    Verdict.bind_congr (Scope.resolveList_eq_of_lookupType elems h) fun _ => rfl
  | .node _ (.named fields), h =>
    Verdict.bind_congr (Scope.resolveFields_eq_of_lookupType [] fields h) fun _ => rfl
  | .node _ (.seq elem), h =>
    Verdict.bind_congr (Scope.resolve_eq_of_lookupType elem h) fun _ => rfl
  | .node _ (.map key value), h => by
    obtain ⟨hk, hv⟩ := List.forall_mem_append.mp h
    refine Verdict.bind_congr (Scope.resolve_eq_of_lookupType key hk) fun k => ?_
    exact Verdict.bind_congr (Scope.resolve_eq_of_lookupType value hv) fun _ => rfl

theorem Scope.resolveList_eq_of_lookupType : ∀ refs : List TypeRef,
    (∀ n ∈ TypeRef.namesList refs, s.lookupType n.name = s'.lookupType n.name) →
      s.resolveList refs = s'.resolveList refs
  | [], _ => rfl
  | ref :: refs, h => by
    obtain ⟨href, hrefs⟩ := List.forall_mem_append.mp h
    refine Verdict.bind_congr (Scope.resolve_eq_of_lookupType ref href) fun ty => ?_
    exact Verdict.bind_congr (Scope.resolveList_eq_of_lookupType refs hrefs) fun _ => rfl

theorem Scope.resolveFields_eq_of_lookupType (seen : List String) :
    ∀ fields : List (String × TypeRef),
      (∀ n ∈ TypeRef.namesFields fields, s.lookupType n.name = s'.lookupType n.name) →
        s.resolveFields seen fields = s'.resolveFields seen fields
  | [], _ => rfl
  | (name, ref) :: fields, h => by
    obtain ⟨href, hfields⟩ := List.forall_mem_append.mp h
    rw [Scope.resolveFields, Scope.resolveFields]
    by_cases hs : name ∈ seen
    · rw [if_pos hs, if_pos hs]
    · rw [if_neg hs, if_neg hs]
      refine Verdict.bind_congr (Scope.resolve_eq_of_lookupType ref href) fun ty => ?_
      have ih := Scope.resolveFields_eq_of_lookupType (name :: seen) fields hfields
      exact Verdict.bind_congr ih fun _ => rfl

end

end Types

/-! ## 5. Expressions -/

theorem Outcome.bind_congr {α β : Type} {x y : Outcome α} {f g : α → Outcome β} (hx : x = y)
    (h : ∀ a, f a = g a) : (x >>= f) = (y >>= g) := by
  rw [hx, funext h]

namespace Context

variable {c d : Context}

mutual

/-- **Checking an expression asks about its mentions only.** -/
theorem check_eq_of_agree : ∀ e : Expr, c.Agree d e.mentions → c.check e = d.check e
  | .node _ (.name _), h => congrArg Outcome.of (Rule.name_eq_of_lookup h.one)
  | .node _ (.int _), _ | .node _ (.float _), _ | .node _ (.bool _), _ | .node _ .null, _
  | .node _ .choice, _ | .node _ .fairChoice, _ => rfl
  | .node _ .halt, h => congrArg Outcome.of (Rule.halt_eq_of_lookup h.one)
  | .node span .self, h => by
    have ho : c.owner = d.owner := h.one
    exact congrArg (fun owner => Outcome.of (Rule.self owner span)) ho
  | .node _ (.linear _ _), h => congrArg Outcome.of (Rule.linear_eq_of_lookup h.one)
  | .node _ (.unary _ e), h | .node _ (.component e _), h | .node _ (.field e _), h
  | .node _ (.keys e), h | .node _ (.values e), h | .node _ (.sizeof e), h =>
    Outcome.bind_congr (check_eq_of_agree e h) fun _ => rfl
  | .node _ (.binary _ l r), h | .node _ (.index l r), h => by
    obtain ⟨hl, hr⟩ := Agree.append h
    refine Outcome.bind_congr (check_eq_of_agree l hl) fun _ => ?_
    exact Outcome.bind_congr (check_eq_of_agree r hr) fun _ => rfl
  | .node _ (.tuple elems), h =>
    Outcome.bind_congr (checkList_eq_of_agree elems h) fun _ => rfl
  | .node _ (.named fields), h =>
    Outcome.bind_congr (checkFields_eq_of_agree [] fields h) fun _ => rfl
  | .node _ (.default ref), h =>
    Outcome.bind_congr (congrArg Outcome.of (Scope.resolve_eq_of_lookupType ref h.types)) fun _ => rfl
  | .node _ (.call callee args), h => by
    obtain ⟨hf, hargs⟩ := Agree.cons h
    refine Outcome.bind_congr (congrArg Outcome.of (Rule.callee_eq_of_lookup hf)) fun f => ?_
    exact Outcome.bind_congr (checkArgs_eq_of_agree [] args hargs) fun _ => rfl
  | .node _ (.new machine args), h => by
    obtain ⟨hm, hargs⟩ := Agree.cons h
    refine Outcome.bind_congr (congrArg Outcome.of (Rule.constructor_eq_of_lookup hm)) fun m => ?_
    exact Outcome.bind_congr (checkArgs_eq_of_agree [] args hargs) fun _ => rfl
  | .node _ (.cast e ref), h | .node _ (.coerce e ref), h => by
    obtain ⟨he, href⟩ := Agree.append h
    have ht := congrArg Outcome.of (Scope.resolve_eq_of_lookupType ref href.types)
    refine Outcome.bind_congr (check_eq_of_agree e he) fun _ => ?_
    exact Outcome.bind_congr ht fun _ => rfl

theorem checkList_eq_of_agree : ∀ es : List Expr,
    c.Agree d (Expr.mentionsList es) → c.checkList es = d.checkList es
  | [], _ => rfl
  | e :: es, h => by
    obtain ⟨he, hes⟩ := Agree.append h
    refine Outcome.bind_congr (check_eq_of_agree e he) fun t => ?_
    exact Outcome.bind_congr (checkList_eq_of_agree es hes) fun _ => rfl

theorem checkFields_eq_of_agree (seen : List String) : ∀ fields : List (String × Expr),
    c.Agree d (Expr.mentionsFields fields) → c.checkFields seen fields = d.checkFields seen fields
  | [], _ => rfl
  | (name, e) :: fields, h => by
    obtain ⟨he, hfields⟩ := Agree.append h
    rw [checkFields, checkFields]
    by_cases hs : name ∈ seen
    · rw [if_pos hs, if_pos hs]
    · rw [if_neg hs, if_neg hs]
      refine Outcome.bind_congr (check_eq_of_agree e he) fun t => ?_
      exact Outcome.bind_congr (checkFields_eq_of_agree (name :: seen) fields hfields) fun _ => rfl

/-- What was handed over before is remembered by name, and no name is looked up for it. -/
theorem checkArgs_eq_of_agree (taken : List String) : ∀ es : List Expr,
    c.Agree d (Expr.mentionsList es) → c.checkArgs taken es = d.checkArgs taken es
  | [], _ => rfl
  | e :: es, h => by
    obtain ⟨he, hes⟩ := Agree.append h
    refine Outcome.bind_congr (check_eq_of_agree e he) fun t => ?_
    refine Outcome.bind_congr rfl fun taken' => ?_
    exact Outcome.bind_congr (checkArgs_eq_of_agree taken' es hes) fun _ => rfl

end

end Context

end MachineTyping
