/-
# Spellings can be read back

A message that expects one type and finds another is of no use if both are spelled alike.  Two types are
spelled alike if they are the same but for `()`, which is the tuple of nothing, named or not; and where
names are names, **only** then (`Ty.spelling_eq_iff`).  Aliases are left out, because they are spelled by
their name whatever they stand for.

A spelling is a word, perhaps brackets, and what stands in them with commas between
(`Ty.toList_spelling`).  Reading one from the left, what tells where it ends is what follows:

* a word ends where no more of it can come (`word_cut`).  So an enum with the name `seq` is no sequence:
  its spelling does not go on with a bracket;
* what stands in a list is followed by a comma or by what closes the list (`Follows`), and none of it
  begins like that.  The comma of `(int,)` belongs to what closes it (`Closer`): no blank comes after
  it;
* an element is told from a field by the colon, which no type goes on with.

So the induction has to say more than that spellings are different: **no spelling, with what follows
it, begins with that of another type** (`Ty.ReadOneWay`).
-/
import MachineTyping.Type.Spelling
import MachineTyping.Proofs.Type.Congruence

namespace MachineTyping

/-! ## 1. Names -/

/-- The character can stand in a name: a letter, a digit or an underscore. -/
def isNameChar (c : Char) : Bool := c.isAlphanum || c == '_'

/-- The characters can stand in a name. -/
def IsWord (cs : List Char) : Prop := ∀ c ∈ cs, isNameChar c = true

instance (cs : List Char) : Decidable (IsWord cs) :=
  decidable_of_iff (cs.all isNameChar = true) List.all_eq_true

/-- **The name is one**: it is not empty and has no other characters. -/
structure IsName (name : String) : Prop where
  nonempty : name ≠ ""
  word : IsWord name.toList

/-- The names of the types that have one of their own. -/
def Ty.ownNames : List String := ["int", "float", "bool", "any", "null", "event", "machine"]

/-- **The names in a type are names**, at any depth, no enum has the name of another type, and there
are no aliases. -/
structure Ty.WellNamed (t : Ty) : Prop where
  aliasFree : t.AliasFree
  enum : ∀ name, (Ty.enum name).IsPartOf t → IsName name ∧ name ∉ Ty.ownNames
  field : ∀ fields, (Ty.named fields).IsPartOf t → ∀ field ∈ fields, IsName field.1

theorem Ty.WellNamed.component {t u : Ty} (h : t.WellNamed) (hu : u ∈ t.components) :
    u.WellNamed where
  aliasFree name target hp := h.aliasFree name target (.inner hu hp)
  enum name hp := h.enum name (.inner hu hp)
  field fields hp := h.field fields (.inner hu hp)

/-- So they are exactly if those of the type itself are, and those of its components. -/
theorem Ty.wellNamed_iff {t : Ty} : t.WellNamed ↔
    (∀ name target, t ≠ .alias name target) ∧
    (∀ name, t = .enum name → IsName name ∧ name ∉ Ty.ownNames) ∧
    (∀ fields, t = .named fields → ∀ field ∈ fields, IsName field.1) ∧
    ∀ u ∈ t.components, u.WellNamed := by
  constructor
  · intro h
    refine ⟨(Ty.aliasFree_iff.mp h.aliasFree).1, ?_, ?_, fun u => h.component⟩
    · rintro name rfl
      exact h.enum name (.whole _)
    · rintro fields rfl
      exact h.field fields (.whole _)
  · rintro ⟨ha, he, hf, hparts⟩
    refine ⟨Ty.aliasFree_iff.mpr ⟨ha, fun u hu => (hparts u hu).aliasFree⟩, ?_, ?_⟩
    · intro name hp
      cases hp with
      | whole => exact he name rfl
      | inner hu hp => exact (hparts _ hu).enum name hp
    · intro fields hp
      cases hp with
      | whole => exact hf fields rfl
      | inner hu hp => exact (hparts _ hu).field fields hp

/-- No more of a word can come. -/
def EndsWord (rest : List Char) : Prop := ∀ c ∈ rest.head?, isNameChar c = false

/-- **A word ends where no more of it can come.** -/
theorem word_cut {v w r s : List Char} (hv : IsWord v) (hw : IsWord w) (hr : EndsWord r)
    (hs : EndsWord s) (h : v ++ r = w ++ s) : v = w ∧ r = s := by
  have taken : ∀ {u t : List Char}, IsWord u → EndsWord t → (u ++ t).takeWhile isNameChar = u := by
    intro u t hu ht
    rw [List.takeWhile_append_of_pos hu]
    cases t with
    | nil => rw [List.takeWhile_nil, List.append_nil]
    | cons c t => rw [List.takeWhile_cons_of_neg (by simp [ht c rfl]), List.append_nil]
  have hvw : v = w := by rw [← taken hv hr, h, taken hw hs]
  subst hvw
  exact ⟨rfl, List.append_cancel_left h⟩

/-! ## 2. One spelling of `()` -/

/-- A named tuple, which is the empty tuple if it has no fields. -/
def Ty.namedOrUnit : List (String × Ty) → Ty
  | [] => .tuple []
  | fields => .named fields

mutual

/-- **The type with the empty tuple for the empty named tuple**, at any depth. -/
def Ty.withOneUnit : Ty → Ty
  | .tuple elems => .tuple (Ty.withOneUnitList elems)
  | .named fields => Ty.namedOrUnit (Ty.withOneUnitFields fields)
  | .seq t => .seq t.withOneUnit
  | .map key value => .map key.withOneUnit value.withOneUnit
  | .alias name target => .alias name target.withOneUnit
  | .int => .int
  | .float => .float
  | .bool => .bool
  | .any => .any
  | .null => .null
  | .event => .event
  | .machine => .machine
  | .enum name => .enum name

/-- So for the types of a list. -/
def Ty.withOneUnitList : List Ty → List Ty
  | [] => []
  | t :: ts => t.withOneUnit :: Ty.withOneUnitList ts

/-- So for the types of fields. -/
def Ty.withOneUnitFields : List (String × Ty) → List (String × Ty)
  | [] => []
  | (name, t) :: fields => (name, t.withOneUnit) :: Ty.withOneUnitFields fields

end

theorem Ty.withOneUnitList_eq_map (ts : List Ty) :
    Ty.withOneUnitList ts = ts.map Ty.withOneUnit := by
  induction ts with
  | nil => rfl
  | cons t ts ih => rw [Ty.withOneUnitList, ih, List.map_cons]

theorem Ty.withOneUnitFields_eq_map (fields : List (String × Ty)) :
    Ty.withOneUnitFields fields = fields.map fun field => (field.1, field.2.withOneUnit) := by
  induction fields with
  | nil => rfl
  | cons field fields ih => rw [Ty.withOneUnitFields, ih, List.map_cons]

theorem Ty.withOneUnit_tuple (elems : List Ty) :
    (Ty.tuple elems).withOneUnit = .tuple (elems.map Ty.withOneUnit) := by
  rw [Ty.withOneUnit, Ty.withOneUnitList_eq_map]

theorem Ty.withOneUnit_named_cons (field : String × Ty) (fields : List (String × Ty)) :
    (Ty.named (field :: fields)).withOneUnit =
      .named ((field :: fields).map fun field => (field.1, field.2.withOneUnit)) := by
  rw [Ty.withOneUnit, Ty.withOneUnitFields_eq_map]
  rfl

/-! ## 3. The parts of a spelling -/

/-- What stands between commas: a type, with a name if it is that of a field. -/
structure Ty.Entry where
  label? : Option String
  ty : Ty

/-- How an entry is spelled. -/
def Ty.Entry.spelling : Ty.Entry → String
  | ⟨none, t⟩ => t.spelling
  | ⟨some label, t⟩ => label ++ ": " ++ t.spelling

/-- The entry with one spelling of `()`. -/
def Ty.Entry.withOneUnit (entry : Ty.Entry) : Ty.Entry := ⟨entry.label?, entry.ty.withOneUnit⟩

namespace Ty

/-- The word that a spelling begins with. -/
def word : Ty → String
  | .int => "int"
  | .float => "float"
  | .bool => "bool"
  | .any => "any"
  | .null => "null"
  | .event => "event"
  | .machine => "machine"
  | .enum name | .alias name _ => name
  | .tuple _ | .named _ => ""
  | .seq _ => "seq"
  | .map _ _ => "map"

/-- The bracket that comes then, if one does... -/
def opening : Ty → List Char
  | .tuple _ | .named _ => ['(']
  | .seq _ | .map _ _ => ['[']
  | _ => []

/-- ...what stands in the brackets... -/
def entries : Ty → List Entry
  | .tuple elems => elems.map fun t => ⟨none, t⟩
  | .named fields => fields.map fun field => ⟨some field.1, field.2⟩
  | .seq t => [⟨none, t⟩]
  | .map key value => [⟨none, key⟩, ⟨none, value⟩]
  | _ => []

/-- ...and what closes them, with the comma of a tuple of one element. -/
def closing : Ty → List Char
  | .tuple [_] => [',', ')']
  | .tuple _ | .named _ => [')']
  | .seq _ | .map _ _ => [']']
  | _ => []

/-- What a spelling goes on with after its word. -/
def tail (t : Ty) : List Char :=
  t.opening ++ ((commaSeparated (t.entries.map Entry.spelling)).toList ++ t.closing)

/-- **A spelling is made of these parts.** -/
theorem toList_spelling (t : Ty) : t.spelling.toList = t.word.toList ++ t.tail := by
  cases t with
  | tuple elems =>
    rcases elems with _ | ⟨t, _ | ⟨u, ts⟩⟩
    · rfl
    · simp [spelling, tail, word, opening, entries, closing, Entry.spelling, commaSeparated]
    · simp [spelling, tail, word, opening, entries, closing, Entry.spelling, spellings,
        spellings_eq_map, Function.comp_def]
  | named fields =>
    simp [spelling, tail, word, opening, entries, closing, fieldSpellings_eq_map,
      Entry.spelling, Function.comp_def]
  | seq t =>
    simp [spelling, tail, word, opening, entries, closing, Entry.spelling, commaSeparated]
  | map key value =>
    simp [spelling, tail, word, opening, entries, closing, Entry.spelling, commaSeparated]
  | enum name | «alias» name _ =>
    simp [spelling, tail, word, opening, entries, closing, commaSeparated]
  | _ => rfl

/-- The parts are those of the type with one spelling of `()`. -/
theorem parts_withOneUnit (t : Ty) : t.withOneUnit.word = t.word ∧
    t.withOneUnit.opening = t.opening ∧ t.withOneUnit.closing = t.closing ∧
    t.withOneUnit.entries = t.entries.map Entry.withOneUnit := by
  cases t with
  | tuple elems =>
    rcases elems with _ | ⟨t, _ | ⟨u, ts⟩⟩
    · exact ⟨rfl, rfl, rfl, rfl⟩
    · exact ⟨rfl, rfl, rfl, rfl⟩
    · refine ⟨rfl, rfl, rfl, ?_⟩
      rw [withOneUnit_tuple, entries, entries, List.map_map, List.map_map]
      rfl
  | named fields =>
    cases fields with
    | nil => exact ⟨rfl, rfl, rfl, rfl⟩
    | cons field fields =>
      refine ⟨rfl, rfl, rfl, ?_⟩
      rw [withOneUnit_named_cons, entries, entries, List.map_map, List.map_map]
      rfl
  | _ => exact ⟨rfl, rfl, rfl, rfl⟩

theorem mem_components_of_mem_entries {t : Ty} {entry : Entry} (h : entry ∈ t.entries) :
    entry.ty ∈ t.components := by
  cases t with
  | tuple elems =>
    obtain ⟨u, hu, rfl⟩ := List.mem_map.mp h
    exact hu
  | named fields =>
    obtain ⟨field, hf, rfl⟩ := List.mem_map.mp h
    exact List.mem_map_of_mem hf
  | seq t =>
    obtain rfl := List.mem_singleton.mp h
    exact List.mem_cons_self
  | map key value =>
    rcases List.mem_cons.mp h with rfl | h
    · exact List.mem_cons_self
    · obtain rfl := List.mem_singleton.mp h
      exact List.mem_cons_of_mem key List.mem_cons_self
  | _ => cases h

/-- **Which of the two spellings `()` has does not show.** -/
theorem spelling_withOneUnit (t : Ty) : t.withOneUnit.spelling = t.spelling := by
  induction t using Ty.induction_on_components with
  | h t ih =>
    obtain ⟨hw, ho, hc, he⟩ := t.parts_withOneUnit
    have hentries : (t.entries.map Entry.withOneUnit).map Entry.spelling =
        t.entries.map Entry.spelling := by
      rw [List.map_map]
      refine List.map_congr_left fun entry hm => ?_
      have hty := ih entry.ty (mem_components_of_mem_entries hm)
      obtain ⟨label, u⟩ := entry
      cases label with
      | none => exact hty
      | some label => exact congrArg (label ++ ": " ++ ·) hty
    rw [← String.toList_inj, toList_spelling, toList_spelling, tail, tail, hw, ho, hc, he, hentries]

end Ty

/-! ## 4. What a spelling is followed by -/

/-- No punctuation can stand in a name. -/
theorem isNameChar_of_mem {c : Char} (h : c ∈ ['(', '[', ',', ')', ']']) : isNameChar c = false := by
  simp only [List.mem_cons, List.not_mem_nil, or_false] at h
  rcases h with rfl | rfl | rfl | rfl | rfl <;> rfl

/-- What can follow a type: nothing, a comma or what closes a list. -/
def Follows (rest : List Char) : Prop := ∀ c ∈ rest.head?, c ∈ [',', ')', ']']

/-- What closes a list. -/
inductive Closer : List Char → Prop
  | round : Closer [')']
  | comma : Closer [',', ')']
  | square : Closer [']']

section Closing

variable {k l r s : List Char}

theorem Closer.follows (hk : Closer k) : Follows (k ++ r) := by
  cases hk <;> simp [Follows]

/-- Closers differ in how they begin. -/
theorem Closer.cut (hk : Closer k) (hl : Closer l) (h : k ++ r = l ++ s) : r = s := by
  cases hk <;> cases hl <;> simp_all

/-- No blank comes after the comma of a closer. -/
theorem Closer.append_ne_comma_blank (hk : Closer k) : k ++ r ≠ ',' :: ' ' :: s := by
  cases hk <;> simp

theorem Follows.ne_bracket {b : Char} (h : Follows r) (hb : b ∈ ['(', '[']) : r ≠ b :: s := by
  rintro rfl
  have hf : b ∈ [',', ')', ']'] := h b rfl
  simp only [List.mem_cons, List.not_mem_nil, or_false] at hb
  rcases hb with rfl | rfl
  · exact absurd hf (by decide)
  · exact absurd hf (by decide)

end Closing

/-- After its word a type ends, or goes on with a bracket. -/
theorem Ty.head_tail_append (t : Ty) {r : List Char} (hr : Follows r) :
    ∀ c ∈ (t.tail ++ r).head?, c ∈ ['(', '[', ',', ')', ']'] := by
  have hends : ∀ c ∈ r.head?, c ∈ ['(', '[', ',', ')', ']'] := fun c hc =>
    List.mem_cons_of_mem _ (List.mem_cons_of_mem _ (hr c hc))
  cases t with
  | tuple _ | named _ | seq _ | map _ _ =>
    rintro c ⟨⟩
    decide
  | _ => exact hends

theorem Ty.endsWord_tail_append (t : Ty) {r : List Char} (hr : Follows r) :
    EndsWord (t.tail ++ r) :=
  fun c hc => isNameChar_of_mem (t.head_tail_append hr c hc)

theorem Ty.tail_append_ne_colon (t : Ty) {r s : List Char} (hr : Follows r) :
    t.tail ++ r ≠ ':' :: s := by
  intro h
  exact absurd (t.head_tail_append hr ':' (by rw [h]; rfl)) (by decide)

/-! ## 5. Reading from the left -/

/-- The word of a type is one. -/
theorem Ty.WellNamed.isWord {t : Ty} (h : t.WellNamed) : IsWord t.word.toList := by
  cases t with
  | enum name => exact (h.enum name (.whole _)).1.word
  | «alias» name target => exact absurd (.whole _) (h.aliasFree name target)
  | seq _ =>
    show IsWord "seq".toList
    decide
  | map _ _ =>
    show IsWord "map".toList
    decide
  | tuple _ | named _ => exact List.forall_mem_nil _
  | _ =>
    rw [Ty.word]
    decide

/-- The text begins with something, and not like what follows an entry. -/
def BeginsEntry (text : List Char) : Prop := ∃ c cs, text = c :: cs ∧ c ∉ [',', ')', ']']

theorem IsName.beginsEntry {name : String} (h : IsName name) (rest : List Char) :
    BeginsEntry (name.toList ++ rest) := by
  cases hn : name.toList with
  | nil => exact absurd (String.toList_eq_nil_iff.mp hn) h.nonempty
  | cons c cs =>
    have hc : isNameChar c = true := h.word c (hn ▸ List.mem_cons_self)
    refine ⟨c, cs ++ rest, rfl, fun hm => ?_⟩
    rw [isNameChar_of_mem (List.mem_cons_of_mem _ (List.mem_cons_of_mem _ hm))] at hc
    cases hc

theorem Ty.WellNamed.beginsEntry {t : Ty} (h : t.WellNamed) : BeginsEntry t.spelling.toList := by
  rw [Ty.toList_spelling]
  cases t with
  | enum name => exact (h.enum name (.whole _)).1.beginsEntry _
  | «alias» name target => exact absurd (.whole _) (h.aliasFree name target)
  | seq t =>
    have hseq : IsName "seq" := ⟨by decide, by decide⟩
    exact hseq.beginsEntry _
  | map key value =>
    have hmap : IsName "map" := ⟨by decide, by decide⟩
    exact hmap.beginsEntry _
  | _ => exact ⟨_, _, rfl, by decide⟩

/-- **The spelling is read in one way**: with what follows, no other type begins it. -/
def Ty.ReadOneWay (t : Ty) : Prop :=
  ∀ {u : Ty} {r s : List Char}, u.WellNamed → Follows r → Follows s →
    t.spelling.toList ++ r = u.spelling.toList ++ s → t.withOneUnit = u.withOneUnit ∧ r = s

/-- The names in an entry are names. -/
structure Ty.Entry.WellNamed (entry : Ty.Entry) : Prop where
  label : ∀ label ∈ entry.label?, IsName label
  ty : entry.ty.WellNamed

theorem Ty.WellNamed.entry {t : Ty} (h : t.WellNamed) {entry : Ty.Entry}
    (he : entry ∈ t.entries) : entry.WellNamed where
  label label hl := by
    cases t with
    | named fields =>
      obtain ⟨field, hf, rfl⟩ := List.mem_map.mp he
      cases hl
      exact h.field fields (.whole _) field hf
    | tuple elems =>
      obtain ⟨u, -, rfl⟩ := List.mem_map.mp he
      cases hl
    | seq t =>
      obtain rfl := List.mem_singleton.mp he
      cases hl
    | map key value =>
      simp only [Ty.entries, List.mem_cons, List.not_mem_nil, or_false] at he
      rcases he with rfl | rfl
      · cases hl
      · cases hl
    | _ => cases he
  ty := h.component (Ty.mem_components_of_mem_entries he)

namespace Ty.Entry

variable {entry entry' : Entry} {entries entries' : List Entry} {k l r s : List Char}

/-- **An entry is read in one way** if its type is: the colon tells a field from an element. -/
theorem cut (h : entry.WellNamed) (h' : entry'.WellNamed) (hty : entry.ty.ReadOneWay)
    (hr : Follows r) (hs : Follows s)
    (heq : entry.spelling.toList ++ r = entry'.spelling.toList ++ s) :
    entry.withOneUnit = entry'.withOneUnit ∧ r = s := by
  obtain ⟨label, t⟩ := entry
  obtain ⟨label', t'⟩ := entry'
  have hword : IsWord t.word.toList := h.ty.isWord
  have hword' : IsWord t'.word.toList := h'.ty.isWord
  have hcolon : ∀ cs : List Char, EndsWord (':' :: cs) := by
    rintro cs c ⟨⟩
    decide
  have hspelled : ∀ (label : String) (t : Ty) (cs : List Char),
      (spelling ⟨some label, t⟩).toList ++ cs =
        label.toList ++ ':' :: ' ' :: (t.spelling.toList ++ cs) := by
    intro label t cs
    simp [spelling]
  cases label with
  | none =>
    cases label' with
    | none =>
      obtain ⟨ht, hrs⟩ := hty h'.ty hr hs heq
      exact ⟨congrArg (mk none) ht, hrs⟩
    | some label' =>
      rw [hspelled, spelling, t.toList_spelling, List.append_assoc] at heq
      obtain ⟨-, htail⟩ := word_cut hword (h'.label label' rfl).word
        (t.endsWord_tail_append hr) (hcolon _) heq
      exact absurd htail (t.tail_append_ne_colon hr)
  | some label =>
    cases label' with
    | none =>
      rw [hspelled, spelling, t'.toList_spelling, List.append_assoc] at heq
      obtain ⟨-, htail⟩ := word_cut (h.label label rfl).word hword' (hcolon _)
        (t'.endsWord_tail_append hs) heq
      exact absurd htail.symm (t'.tail_append_ne_colon hs)
    | some label' =>
      rw [hspelled, hspelled] at heq
      obtain ⟨hlabel, htail⟩ := word_cut (h.label label rfl).word (h'.label label' rfl).word
        (hcolon _) (hcolon _) heq
      obtain rfl := String.toList_inj.mp hlabel
      simp only [List.cons.injEq, true_and] at htail
      obtain ⟨ht, hrs⟩ := hty h'.ty hr hs htail
      exact ⟨congrArg (mk (some label)) ht, hrs⟩

/-- The entries after the first, each with the comma before it. -/
def furtherText (entries : List Entry) : List Char :=
  entries.flatMap fun entry => ',' :: ' ' :: entry.spelling.toList

theorem toList_commaSeparated_nil :
    (commaSeparated (([] : List Entry).map spelling)).toList = [] := rfl

theorem toList_commaSeparated_cons (entry : Entry) (entries : List Entry) :
    (commaSeparated ((entry :: entries).map spelling)).toList =
      entry.spelling.toList ++ furtherText entries := by
  induction entries generalizing entry with
  | nil => simp [commaSeparated, furtherText]
  | cons next entries ih =>
    have hn := ih next
    simp only [commaSeparated, furtherText, String.toList_intercalate, List.map_cons,
      List.intercalate_cons_cons, List.flatMap_cons] at hn ⊢
    rw [hn]
    simp

theorem follows_furtherText (hk : Closer k) : Follows (furtherText entries ++ (k ++ r)) := by
  cases entries with
  | nil => exact hk.follows
  | cons entry entries =>
    rintro c ⟨⟩
    exact List.mem_cons_self

/-- The entries after the first are read in one way, up to what closes the list. -/
theorem furtherText_cut (h : ∀ e ∈ entries, e.WellNamed ∧ e.ty.ReadOneWay)
    (h' : ∀ e ∈ entries', e.WellNamed) (hk : Closer k) (hl : Closer l)
    (heq : furtherText entries ++ (k ++ r) = furtherText entries' ++ (l ++ s)) :
    entries.map withOneUnit = entries'.map withOneUnit ∧ r = s := by
  induction entries generalizing entries' with
  | nil =>
    cases entries' with
    | nil => exact ⟨rfl, hk.cut hl heq⟩
    | cons e' entries' => exact absurd heq (hk.append_ne_comma_blank)
  | cons e entries ih =>
    cases entries' with
    | nil => exact absurd heq.symm (hl.append_ne_comma_blank)
    | cons e' entries' =>
      obtain ⟨⟨he, hty⟩, h⟩ := List.forall_mem_cons.mp h
      obtain ⟨he', h'⟩ := List.forall_mem_cons.mp h'
      have heq : e.spelling.toList ++ (furtherText entries ++ (k ++ r)) =
          e'.spelling.toList ++ (furtherText entries' ++ (l ++ s)) := by
        simpa [furtherText] using heq
      obtain ⟨hee, heq⟩ := cut he he' hty (follows_furtherText hk) (follows_furtherText hl) heq
      obtain ⟨hes, hrs⟩ := ih h h' heq
      refine ⟨?_, hrs⟩
      rw [List.map_cons, List.map_cons, hee, hes]

/-- No entry begins with what closes a list. -/
theorem spelling_append_ne_closer (h : entry.WellNamed) (hk : Closer k) :
    entry.spelling.toList ++ s ≠ k ++ r := by
  intro heq
  obtain ⟨label, t⟩ := entry
  have hbegins : BeginsEntry (spelling ⟨label, t⟩).toList := by
    cases label with
    | none => exact h.ty.beginsEntry
    | some label =>
      rw [spelling, String.append_assoc, String.toList_append]
      exact (h.label label rfl).beginsEntry _
  obtain ⟨c, cs, hc, hn⟩ := hbegins
  refine hn (hk.follows (r := r) c ?_)
  rw [← heq, hc]
  rfl

/-- **A list of entries is read in one way**, up to what closes it. -/
theorem list_cut (h : ∀ e ∈ entries, e.WellNamed ∧ e.ty.ReadOneWay)
    (h' : ∀ e ∈ entries', e.WellNamed) (hk : Closer k) (hl : Closer l)
    (heq : (commaSeparated (entries.map spelling)).toList ++ (k ++ r) =
      (commaSeparated (entries'.map spelling)).toList ++ (l ++ s)) :
    entries.map withOneUnit = entries'.map withOneUnit ∧ r = s := by
  cases entries with
  | nil =>
    cases entries' with
    | nil => exact ⟨rfl, hk.cut hl heq⟩
    | cons e' entries' =>
      rw [toList_commaSeparated_nil, List.nil_append, toList_commaSeparated_cons,
        List.append_assoc] at heq
      exact absurd heq.symm (spelling_append_ne_closer (h' e' List.mem_cons_self) hk)
  | cons e entries =>
    rw [toList_commaSeparated_cons, List.append_assoc] at heq
    obtain ⟨⟨he, hty⟩, h⟩ := List.forall_mem_cons.mp h
    cases entries' with
    | nil =>
      rw [toList_commaSeparated_nil, List.nil_append] at heq
      exact absurd heq (spelling_append_ne_closer he hl)
    | cons e' entries' =>
      rw [toList_commaSeparated_cons, List.append_assoc] at heq
      obtain ⟨he', h'⟩ := List.forall_mem_cons.mp h'
      obtain ⟨hee, heq⟩ := cut he he' hty (follows_furtherText hk) (follows_furtherText hl) heq
      obtain ⟨hes, hrs⟩ := furtherText_cut h h' hk hl heq
      refine ⟨?_, hrs⟩
      rw [List.map_cons, List.map_cons, hee, hes]

end Ty.Entry

/-! ## 6. Types -/

namespace Ty

/-- The type with this name of its own, or the enum. -/
def ofWord : String → Ty
  | "int" => .int
  | "float" => .float
  | "bool" => .bool
  | "any" => .any
  | "null" => .null
  | "event" => .event
  | "machine" => .machine
  | name => .enum name

/-- The type that has these parts, and `()` for the empty tuple. -/
def ofParts (word : String) : List Char → List Entry → Ty
  | ['('], ⟨some name, t⟩ :: entries =>
    .named ((name, t) :: entries.map fun entry => (entry.label?.getD "", entry.ty))
  | ['('], entries => .tuple (entries.map Entry.ty)
  | ['['], [⟨_, t⟩] => .seq t
  | ['['], [⟨_, key⟩, ⟨_, value⟩] => .map key value
  | _, _ => ofWord word

theorem ofWord_of_not_mem {name : String} (h : name ∉ ownNames) : ofWord name = .enum name := by
  unfold ofWord
  split <;> simp_all [ownNames]

/-- **A type is told by its parts.** -/
theorem ofParts_parts {t : Ty} (h : t.WellNamed) :
    ofParts t.word t.opening (t.entries.map Entry.withOneUnit) = t.withOneUnit := by
  cases t with
  | enum name => exact ofWord_of_not_mem (h.enum name (.whole _)).2
  | «alias» name target => exact absurd (.whole _) (h.aliasFree name target)
  | tuple elems =>
    cases elems with
    | nil => rfl
    | cons t ts =>
      rw [withOneUnit_tuple]
      show Ty.tuple _ = _
      simp [Entry.withOneUnit]
  | named fields =>
    cases fields with
    | nil => rfl
    | cons field fields =>
      rw [withOneUnit_named_cons]
      show Ty.named _ = _
      simp [Entry.withOneUnit]
  | _ => rfl

/-- A type is a word, or it has brackets. -/
theorem word_or_brackets (t : Ty) : t.tail = [] ∧ t.opening = [] ∧ t.entries = [] ∨
    (∃ b ∈ ['(', '['], t.opening = [b]) ∧ Closer t.closing := by
  cases t with
  | tuple elems =>
    refine Or.inr ⟨⟨'(', by decide, rfl⟩, ?_⟩
    rcases elems with _ | ⟨t, _ | ⟨u, ts⟩⟩
    · exact .round
    · exact .comma
    · exact .round
  | named fields => exact Or.inr ⟨⟨'(', by decide, rfl⟩, .round⟩
  | seq _ | map _ _ => exact Or.inr ⟨⟨'[', by decide, rfl⟩, .square⟩
  | _ => exact Or.inl ⟨rfl, rfl, rfl⟩

theorem tail_append_of_opening {t : Ty} {b : Char} (h : t.opening = [b]) (r : List Char) :
    t.tail ++ r =
      b :: ((commaSeparated (t.entries.map Entry.spelling)).toList ++ (t.closing ++ r)) := by
  rw [tail, h, List.append_assoc, List.append_assoc]
  rfl

theorem eq_of_parts {t u : Ty} (ht : t.WellNamed) (hu : u.WellNamed) (hw : t.word = u.word)
    (ho : t.opening = u.opening)
    (he : t.entries.map Entry.withOneUnit = u.entries.map Entry.withOneUnit) :
    t.withOneUnit = u.withOneUnit := by
  rw [← ofParts_parts ht, ← ofParts_parts hu, hw, ho, he]

/-- **Every spelling is read in one way.** -/
theorem readOneWay {t : Ty} (h : t.WellNamed) : t.ReadOneWay := by
  induction t using Ty.induction_on_components with
  | h t ih =>
    intro u r s hu hr hs heq
    have hentries : ∀ entry ∈ t.entries, entry.WellNamed ∧ entry.ty.ReadOneWay := fun entry hm =>
      have hc := mem_components_of_mem_entries hm
      ⟨h.entry hm, ih entry.ty hc (h.component hc)⟩
    rw [toList_spelling, toList_spelling, List.append_assoc, List.append_assoc] at heq
    obtain ⟨hword, htail⟩ := word_cut h.isWord hu.isWord (t.endsWord_tail_append hr)
      (u.endsWord_tail_append hs) heq
    have hword : t.word = u.word := String.toList_inj.mp hword
    rcases t.word_or_brackets with ⟨ht, hto, hte⟩ | ⟨⟨b, hb, hto⟩, htc⟩
    · rw [ht, List.nil_append] at htail
      rcases u.word_or_brackets with ⟨hu', huo, hue⟩ | ⟨⟨b, hb, huo⟩, -⟩
      · rw [hu', List.nil_append] at htail
        refine ⟨eq_of_parts h hu hword ?_ ?_, htail⟩
        · rw [hto, huo]
        · rw [hte, hue]
      · -- only the second goes on with a bracket, which cannot follow the first
        rw [tail_append_of_opening huo] at htail
        exact absurd htail (hr.ne_bracket hb)
    · rw [tail_append_of_opening hto] at htail
      rcases u.word_or_brackets with ⟨hu', -, -⟩ | ⟨⟨b', -, huo⟩, huc⟩
      · rw [hu', List.nil_append] at htail
        exact absurd htail.symm (hs.ne_bracket hb)
      · rw [tail_append_of_opening huo] at htail
        obtain ⟨rfl, hinner⟩ := List.cons.inj htail
        obtain ⟨he, hrs⟩ := Entry.list_cut hentries (fun _ => hu.entry) htc huc hinner
        exact ⟨eq_of_parts h hu hword (hto.trans huo.symm) he, hrs⟩

/-! ## 7. The result -/

/-- **Spellings can be read back.**  Where names are names, no enum has the name of another type and no
alias hides what it stands for, types are spelled alike exactly if they are the same but for `()`, which
is the empty tuple and the empty named tuple. -/
theorem spelling_eq_iff {t u : Ty} (ht : t.WellNamed) (hu : u.WellNamed) :
    t.spelling = u.spelling ↔ t.withOneUnit = u.withOneUnit := by
  constructor
  · intro h
    have hend : Follows [] := by
      intro c hc
      cases hc
    exact (readOneWay ht hu hend hend (by rw [h])).1
  · intro h
    rw [← spelling_withOneUnit t, h, spelling_withOneUnit]

/-- So it is with `(x: seq, y: ())`, where `seq` is an enum. -/
theorem spelling_eq_iff_unit :
    let t : Ty := .named [("x", .enum "seq"), ("y", .named [])]
    let u : Ty := .named [("x", .enum "seq"), ("y", .tuple [])]
    t.WellNamed ∧ u.WellNamed ∧ t ≠ u ∧
      (t.spelling = u.spelling ↔ t.withOneUnit = u.withOneUnit) := by
  intro t u
  have hx : IsName "x" := ⟨by decide, by decide⟩
  have hy : IsName "y" := ⟨by decide, by decide⟩
  have henum : (Ty.enum "seq").WellNamed := by
    refine wellNamed_iff.mpr ⟨nofun, ?_, nofun, List.forall_mem_nil _⟩
    rintro name ⟨⟩
    exact ⟨⟨by decide, by decide⟩, by decide⟩
  have hfields : ∀ unit : Ty, unit.WellNamed →
      (Ty.named [("x", .enum "seq"), ("y", unit)]).WellNamed := by
    intro unit hunit
    refine wellNamed_iff.mpr ⟨nofun, nofun, ?_, ?_⟩
    · rintro fields ⟨⟩
      exact List.forall_mem_cons.mpr ⟨hx, List.forall_mem_singleton.mpr hy⟩
    · exact List.forall_mem_cons.mpr ⟨henum, List.forall_mem_singleton.mpr hunit⟩
  have ht : t.WellNamed := by
    refine hfields _ (wellNamed_iff.mpr ⟨nofun, nofun, ?_, List.forall_mem_nil _⟩)
    rintro fields ⟨⟩
    exact List.forall_mem_nil _
  have hu : u.WellNamed :=
    hfields _ (wellNamed_iff.mpr ⟨nofun, nofun, nofun, List.forall_mem_nil _⟩)
  exact ⟨ht, hu, by decide, spelling_eq_iff ht hu⟩

/-- Names matter: an enum with the name of another type is spelled like it. -/
example : (Ty.enum "int").spelling = Ty.int.spelling := rfl

end Ty

end MachineTyping
