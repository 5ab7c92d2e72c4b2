/-
# Reading compact JSON

`Json.read?` reads a text back, and is exact: it accepts the texts of the grammar and no others, and
finds the value that is spelled (`Json.read?_eq_some_iff`).  So a text spells at most one value, and
the value that a text was written for is read back (`Json.read?_text`).

The reader goes down into arrays and objects.  A bound on the text that a value may take is handed
down with it and becomes smaller by one at each step; the length of the whole text is enough, since
every phrase takes at least one character.
-/
import MachineTyping.Proofs.Json.Grammar

namespace MachineTyping

namespace Json

/-! ## 1. The reader -/

/-- The characters of a string up to its closing quote, and what is left. -/
def readChars : List Char → Option (List Char × List Char)
  | [] => none
  | '"' :: rest => some ([], rest)
  | '\\' :: 'u' :: d₁ :: d₂ :: d₃ :: d₄ :: text => do
    let c ← codePoint? d₁ d₂ d₃ d₄
    let (cs, rest) ← readChars text
    return (c :: cs, rest)
  | '\\' :: letter :: text => do
    let c ← escape? letter
    let (cs, rest) ← readChars text
    return (c :: cs, rest)
  | c :: text =>
    if c.toNat < 0x20 ∨ c = '\\' then none
    else do
      let (cs, rest) ← readChars text
      return (c :: cs, rest)

/-- A numeral, and what is left. -/
def readNumeral (text : List Char) : Option (Nat × List Char) :=
  let digits := text.takeWhile Char.isDigit
  if IsNumeral digits then some (digitsValue digits, text.dropWhile Char.isDigit) else none

mutual

/-- A value that takes no more than `bound` characters, and what is left. -/
def readValue : Nat → List Char → Option (Json × List Char)
  | 0, _ => none
  | bound + 1, text =>
    match text with
    | 'n' :: 'u' :: 'l' :: 'l' :: rest => some (.null, rest)
    | 't' :: 'r' :: 'u' :: 'e' :: rest => some (.bool true, rest)
    | 'f' :: 'a' :: 'l' :: 's' :: 'e' :: rest => some (.bool false, rest)
    | '"' :: text => do
      let (cs, rest) ← readChars text
      return (.str (String.ofList cs), rest)
    | '[' :: ']' :: rest => some (.arr [], rest)
    | '[' :: text => do
      let (item, text) ← readValue bound text
      let (items, rest) ← readItems bound text
      return (.arr (item :: items), rest)
    | '\x7b' :: '\x7d' :: rest => some (.obj [], rest)
    | '\x7b' :: '"' :: text => do
      let (member, text) ← readMember bound text
      let (members, rest) ← readMembers bound text
      return (.obj (member :: members), rest)
    | text => do
      let (n, rest) ← readNumeral text
      return (.num n, rest)

/-- Further items, the end of their array, and what is left. -/
def readItems : Nat → List Char → Option (List Json × List Char)
  | 0, _ => none
  | bound + 1, text =>
    match text with
    | ']' :: rest => some ([], rest)
    | ',' :: text => do
      let (item, text) ← readValue bound text
      let (items, rest) ← readItems bound text
      return (item :: items, rest)
    | _ => none

/-- A member after its first quote, and what is left. -/
def readMember : Nat → List Char → Option ((String × Json) × List Char)
  | 0, _ => none
  | bound + 1, text => do
    match ← readChars text with
    | (key, ':' :: text) =>
      let (value, rest) ← readValue bound text
      return ((String.ofList key, value), rest)
    | _ => none

/-- Further members, the end of their object, and what is left. -/
def readMembers : Nat → List Char → Option (List (String × Json) × List Char)
  | 0, _ => none
  | bound + 1, text =>
    match text with
    | '\x7d' :: rest => some ([], rest)
    | ',' :: '"' :: text => do
      let (member, text) ← readMember bound text
      let (members, rest) ← readMembers bound text
      return (member :: members, rest)
    | _ => none

end

/-- **The value that a text spells**, if it is the compact text of one. -/
def read? (text : String) : Option Json :=
  match readValue text.toList.length text.toList with
  | some (value, []) => some value
  | _ => none

/-! ## 2. Strings and numerals -/

theorem readChars_eq_some_iff {text cs rest : List Char} :
    readChars text = some (cs, rest) ↔ ReadsChars text cs rest := by
  constructor
  · intro h
    fun_induction readChars text generalizing cs rest with
    | case1 => cases h
    | case2 =>
      cases h
      exact .close _
    | case3 d₁ d₂ d₃ d₄ text ih =>
      simp only [bind, Option.bind_eq_some_iff, pure, Option.some.injEq, Prod.mk.injEq] at h
      obtain ⟨c, hc, ⟨cs, rest⟩, hr, rfl, rfl⟩ := h
      exact .code hc (ih hr)
    | case4 letter text _ ih =>
      simp only [bind, Option.bind_eq_some_iff, pure, Option.some.injEq, Prod.mk.injEq] at h
      obtain ⟨c, hc, ⟨cs, rest⟩, hr, rfl, rfl⟩ := h
      exact .short hc (ih hr)
    | case5 => cases h
    | case6 c text hquote _ _ hplain ih =>
      simp only [bind, Option.bind_eq_some_iff, pure, Option.some.injEq, Prod.mk.injEq] at h
      obtain ⟨⟨cs, rest⟩, hr, rfl, rfl⟩ := h
      rw [not_or] at hplain
      exact .plain (Nat.le_of_not_lt hplain.1) hquote hplain.2 (ih hr)
  · intro h
    induction h with
    | close rest => rfl
    | @plain c text cs rest hlow hquote hback _ ih =>
      have hplain : ¬ (c.toNat < 0x20 ∨ c = '\\') := by
        rw [not_or]
        exact ⟨Nat.not_lt_of_le hlow, hback⟩
      rw [readChars]
      · simp [hplain, ih]
      · exact hquote
      · exact fun _ _ _ _ _ h _ => hback h
      · exact fun _ _ h _ => hback h
    | @short letter c text cs rest he _ ih =>
      have hu : letter ≠ 'u' := by
        rintro rfl
        cases he
      rw [readChars]
      · simp [he, ih]
      · exact fun _ _ _ _ _ h _ => hu h
    | code hd _ ih => simp [readChars, hd, ih]

theorem readNumeral_eq_some_iff {text rest : List Char} {n : Nat} :
    readNumeral text = some (n, rest) ↔
      ∃ digits, text = digits ++ rest ∧ IsNumeral digits ∧ EndsNumeral rest ∧
        n = digitsValue digits := by
  simp only [readNumeral]
  constructor
  · intro h
    split at h
    case isFalse => cases h
    case isTrue hn =>
      cases h
      refine ⟨_, List.takeWhile_append_dropWhile.symm, hn, ?_, rfl⟩
      intro c hc
      have hnot := List.head?_dropWhile_not Char.isDigit text
      rw [Option.mem_def.mp hc] at hnot
      simpa using hnot
  · rintro ⟨digits, rfl, hn, he, rfl⟩
    have hnone : rest.takeWhile Char.isDigit = [] := by
      cases rest with
      | nil => rfl
      | cons c rest => exact List.takeWhile_cons_of_neg (he c rfl)
    have htake : (digits ++ rest).takeWhile Char.isDigit = digits := by
      rw [List.takeWhile_append_of_pos hn.isDigit, hnone, List.append_nil]
    have hdrop : (digits ++ rest).dropWhile Char.isDigit = rest := by
      rw [List.dropWhile_append_of_pos hn.isDigit]
      cases rest with
      | nil => rfl
      | cons c rest => exact List.dropWhile_cons_of_neg (he c rfl)
    simp only [htake, hdrop, if_pos hn]

/-! ## 3. Only what is in the grammar is read -/

/-- What is read within a bound is in the grammar. -/
structure Sound (bound : Nat) : Prop where
  value : ∀ {text rest : List Char} {value : Json},
    readValue bound text = some (value, rest) → Reads text value rest
  items : ∀ {text rest : List Char} {items : List Json},
    readItems bound text = some (items, rest) → ReadsItems text items rest
  member : ∀ {text rest : List Char} {member : String × Json},
    readMember bound text = some (member, rest) →
      ∃ key text', ReadsChars text key (':' :: text') ∧ Reads text' member.2 rest ∧
        member.1 = String.ofList key
  members : ∀ {text rest : List Char} {members : List (String × Json)},
    readMembers bound text = some (members, rest) → ReadsMembers text members rest

namespace Sound

variable {bound : Nat}

theorem value_succ (ih : Sound bound) {text rest : List Char} {value : Json}
    (h : readValue (bound + 1) text = some (value, rest)) : Reads text value rest := by
  rw [readValue.eq_def] at h
  dsimp only at h
  split at h
  case h_1 | h_2 | h_3 =>
    cases h
    constructor
  case h_4 =>
    simp only [bind, Option.bind_eq_some_iff, pure, Option.some.injEq, Prod.mk.injEq] at h
    obtain ⟨⟨cs, rest⟩, hs, rfl, rfl⟩ := h
    exact .str (readChars_eq_some_iff.mp hs)
  case h_5 =>
    cases h
    exact .emptyArr _
  case h_6 =>
    simp only [bind, Option.bind_eq_some_iff, pure, Option.some.injEq, Prod.mk.injEq] at h
    obtain ⟨⟨item, text'⟩, hi, ⟨items, rest⟩, hs, rfl, rfl⟩ := h
    exact .arr (ih.value hi) (ih.items hs)
  case h_7 =>
    cases h
    exact .emptyObj _
  case h_8 =>
    simp only [bind, Option.bind_eq_some_iff, pure, Option.some.injEq, Prod.mk.injEq] at h
    obtain ⟨⟨⟨key, value⟩, text'⟩, hm, ⟨members, rest⟩, hs, rfl, rfl⟩ := h
    obtain ⟨key, text'', hk, hv, rfl⟩ := ih.member hm
    exact .obj hk hv (ih.members hs)
  case h_9 =>
    simp only [bind, Option.bind_eq_some_iff, pure, Option.some.injEq, Prod.mk.injEq] at h
    obtain ⟨⟨n, rest⟩, hn, rfl, rfl⟩ := h
    obtain ⟨digits, rfl, hd, he, rfl⟩ := readNumeral_eq_some_iff.mp hn
    exact .num hd he

theorem items_succ (ih : Sound bound) {text rest : List Char} {items : List Json}
    (h : readItems (bound + 1) text = some (items, rest)) : ReadsItems text items rest := by
  rw [readItems.eq_def] at h
  dsimp only at h
  split at h
  case h_1 =>
    cases h
    exact .close _
  case h_2 =>
    simp only [bind, Option.bind_eq_some_iff, pure, Option.some.injEq, Prod.mk.injEq] at h
    obtain ⟨⟨item, text'⟩, hi, ⟨items, rest⟩, hs, rfl, rfl⟩ := h
    exact .next (ih.value hi) (ih.items hs)
  case h_3 => cases h

theorem member_succ (ih : Sound bound) {text rest : List Char} {member : String × Json}
    (h : readMember (bound + 1) text = some (member, rest)) :
    ∃ key text', ReadsChars text key (':' :: text') ∧ Reads text' member.2 rest ∧
      member.1 = String.ofList key := by
  rw [readMember] at h
  obtain ⟨⟨key, text'⟩, hk, h⟩ := Option.bind_eq_some_iff.mp h
  split at h
  case h_1 heq =>
    cases heq
    simp only [bind, Option.bind_eq_some_iff, pure, Option.some.injEq, Prod.mk.injEq] at h
    obtain ⟨⟨value, rest⟩, hv, rfl, rfl⟩ := h
    exact ⟨_, _, readChars_eq_some_iff.mp hk, ih.value hv, rfl⟩
  case h_2 => cases h

theorem members_succ (ih : Sound bound) {text rest : List Char}
    {members : List (String × Json)}
    (h : readMembers (bound + 1) text = some (members, rest)) :
    ReadsMembers text members rest := by
  rw [readMembers.eq_def] at h
  dsimp only at h
  split at h
  case h_1 =>
    cases h
    exact .close _
  case h_2 =>
    simp only [bind, Option.bind_eq_some_iff, pure, Option.some.injEq, Prod.mk.injEq] at h
    obtain ⟨⟨⟨key, value⟩, text'⟩, hm, ⟨members, rest⟩, hs, rfl, rfl⟩ := h
    obtain ⟨key, text'', hk, hv, rfl⟩ := ih.member hm
    exact .next hk hv (ih.members hs)
  case h_3 => cases h

end Sound

theorem sound (bound : Nat) : Sound bound := by
  induction bound with
  | zero =>
    constructor
    all_goals
      intro _ _ _ h
      cases h
  | succ bound ih => exact ⟨ih.value_succ, ih.items_succ, ih.member_succ, ih.members_succ⟩

/-! ## 4. All that is in the grammar is read -/

theorem ReadsChars.length_lt {text cs rest : List Char} (h : ReadsChars text cs rest) :
    rest.length < text.length := by
  induction h with
  | close rest => simp
  | plain _ _ _ _ ih | short _ _ ih | code _ _ ih =>
    simp only [List.length_cons]
    omega

mutual

/-- Every phrase takes some text. -/
theorem Reads.length_lt : ∀ {text rest : List Char} {value : Json}, Reads text value rest →
    rest.length < text.length
  | _, _, _, .null _ | _, _, _, .true _ | _, _, _, .false _ | _, _, _, .emptyArr _
  | _, _, _, .emptyObj _ => by
    simp only [List.length_cons]
    omega
  | _, _, _, .num hn _ => by
    have hpos := List.length_pos_iff.mpr hn.1
    simp only [List.length_append]
    omega
  | _, _, _, .str hs => by
    have h := hs.length_lt
    simp only [List.length_cons]
    omega
  | _, _, _, .arr hi hs => by
    have h := hi.length_lt
    have h' := hs.length_lt
    simp only [List.length_cons]
    omega
  | _, _, _, .obj hk hv hs => by
    have h := hk.length_lt
    have h' := hv.length_lt
    have h'' := hs.length_lt
    simp only [List.length_cons] at h ⊢
    omega

theorem ReadsItems.length_lt : ∀ {text rest : List Char} {items : List Json},
    ReadsItems text items rest → rest.length < text.length
  | _, _, _, .close _ => by simp
  | _, _, _, .next hi hs => by
    have h := hi.length_lt
    have h' := hs.length_lt
    simp only [List.length_cons]
    omega

theorem ReadsMembers.length_lt : ∀ {text rest : List Char} {members : List (String × Json)},
    ReadsMembers text members rest → rest.length < text.length
  | _, _, _, .close _ => by simp
  | _, _, _, .next hk hv hs => by
    have h := hk.length_lt
    have h' := hv.length_lt
    have h'' := hs.length_lt
    simp only [List.length_cons] at h ⊢
    omega

end

/-- No value begins with the end of an array. -/
theorem not_reads_closing {text rest : List Char} {value : Json} :
    ¬ Reads (']' :: text) value rest := by
  generalize ht : ']' :: text = text'
  intro h
  cases h with
  | num hn _ => exact absurd (hn.isDigit_head ht.symm) (by decide)
  | _ => cases ht

/-- What is in the grammar is read within a bound on the text that it takes. -/
structure Complete (bound : Nat) : Prop where
  value : ∀ {text rest : List Char} {value : Json}, Reads text value rest →
    text.length ≤ rest.length + bound → readValue bound text = some (value, rest)
  items : ∀ {text rest : List Char} {items : List Json}, ReadsItems text items rest →
    text.length ≤ rest.length + bound → readItems bound text = some (items, rest)
  member : ∀ {text key text' rest : List Char} {value : Json},
    ReadsChars text key (':' :: text') → Reads text' value rest →
    text.length ≤ rest.length + bound →
    readMember bound text = some ((String.ofList key, value), rest)
  members : ∀ {text rest : List Char} {members : List (String × Json)},
    ReadsMembers text members rest → text.length ≤ rest.length + bound →
    readMembers bound text = some (members, rest)

namespace Complete

variable {bound : Nat}

theorem value_succ (ih : Complete bound) {text rest : List Char} {value : Json}
    (h : Reads text value rest) (hb : text.length ≤ rest.length + (bound + 1)) :
    readValue (bound + 1) text = some (value, rest) := by
  cases h with
  | null | true | false | emptyArr | emptyObj => rfl
  | @num digits rest hn he =>
    have hr := readNumeral_eq_some_iff.mpr ⟨digits, rfl, hn, he, rfl⟩
    rw [readValue.eq_def]
    dsimp only
    -- a digit begins no other value
    split
    case h_9 => simp [hr]
    all_goals
      rename_i heq
      exact absurd (hn.isDigit_head heq) (by decide)
  | str hs => simp [readValue, readChars_eq_some_iff.mpr hs]
  | @arr text text' rest item items hi hs =>
    have hlt := hs.length_lt
    have hlt' := hi.length_lt
    simp only [List.length_cons] at hb
    rw [readValue]
    · simp [ih.value hi (by omega), ih.items hs (by omega)]
    · rintro rest rfl
      exact not_reads_closing hi
  | obj hk hv hs =>
    have hlt := hs.length_lt
    have hlt' := hk.length_lt
    have hlt'' := hv.length_lt
    simp only [List.length_cons] at hb hlt'
    simp [readValue, ih.member hk hv (by omega), ih.members hs (by omega)]

theorem items_succ (ih : Complete bound) {text rest : List Char} {items : List Json}
    (h : ReadsItems text items rest) (hb : text.length ≤ rest.length + (bound + 1)) :
    readItems (bound + 1) text = some (items, rest) := by
  cases h with
  | close => rfl
  | next hi hs =>
    have hlt := hi.length_lt
    have hlt' := hs.length_lt
    simp only [List.length_cons] at hb
    simp [readItems, ih.value hi (by omega), ih.items hs (by omega)]

theorem member_succ (ih : Complete bound) {text key text' rest : List Char} {value : Json}
    (hk : ReadsChars text key (':' :: text')) (hv : Reads text' value rest)
    (hb : text.length ≤ rest.length + (bound + 1)) :
    readMember (bound + 1) text = some ((String.ofList key, value), rest) := by
  have hlt := hk.length_lt
  simp only [List.length_cons] at hlt
  simp [readMember, readChars_eq_some_iff.mpr hk, ih.value hv (by omega)]

theorem members_succ (ih : Complete bound) {text rest : List Char}
    {members : List (String × Json)} (h : ReadsMembers text members rest)
    (hb : text.length ≤ rest.length + (bound + 1)) :
    readMembers (bound + 1) text = some (members, rest) := by
  cases h with
  | close => rfl
  | next hk hv hs =>
    have hlt := hk.length_lt
    have hlt' := hv.length_lt
    have hlt'' := hs.length_lt
    simp only [List.length_cons] at hb hlt
    simp [readMembers, ih.member hk hv (by omega), ih.members hs (by omega)]

end Complete

theorem complete (bound : Nat) : Complete bound := by
  induction bound with
  | zero =>
    constructor
    · intro text rest value h hb
      have hlt := h.length_lt
      omega
    · intro text rest items h hb
      have hlt := h.length_lt
      omega
    · intro text key text' rest value hk hv hb
      have hlt := hk.length_lt
      have hlt' := hv.length_lt
      simp only [List.length_cons] at hlt
      omega
    · intro text rest members h hb
      have hlt := h.length_lt
      omega
  | succ bound ih => exact ⟨ih.value_succ, ih.items_succ, ih.member_succ, ih.members_succ⟩

/-! ## 5. The result -/

/-- **The reader is exact**: what is read is what is spelled, by the whole text. -/
theorem read?_eq_some_iff {text : String} {value : Json} :
    read? text = some value ↔ Reads text.toList value [] := by
  unfold read?
  constructor
  · intro h
    split at h
    case h_1 hr =>
      cases h
      exact (sound _).value hr
    case h_2 => cases h
  · intro h
    rw [(complete text.toList.length).value h (by simp)]

/-- So a text spells one value at most. -/
theorem Reads.unique {text : String} {value value' : Json} (h : Reads text.toList value [])
    (h' : Reads text.toList value' []) : value = value' := by
  have hr := read?_eq_some_iff.mpr h
  rw [read?_eq_some_iff.mpr h'] at hr
  exact (Option.some.inj hr).symm

/-- **What was written is read back.** -/
@[simp] theorem read?_text (value : Json) : read? value.text = some value :=
  read?_eq_some_iff.mpr (reads_text value)

/-- Escapes that are never written are read. -/
example : (read? "[\"\\u0041\\/\",10]").map Json.text = some "[\"A/\",10]" := by decide +kernel

/-- A blank, a leading zero and a comma too many are not. -/
example : ∀ text ∈ ["[1, 2]", "[01]", "[1,]"], (read? text).isNone := by decide +kernel

end Json

end MachineTyping
