/-
# The grammar of number literals

Which texts are number literals, told from the side of what is written
(`Context.number_literals_follow_grammar`):

* an integer is a sign, which may be missing, and a row of one or more digits (`IsInteger`); it must
  be one of the integers of 64 bits, which reach one further down than up (`IsInt64`);
* a decimal is two rows of digits, of which the first may be empty or missing (`IsDecimal`);
* an exponent is never accepted.

A sign is no digit, so a text is an integer in one way at most, and the literal's value is the
integer's.  What is refused is refused with its own text.
-/
import Mathlib.Data.Rat.Defs
import MachineTyping.Proofs.Failure.Rule
import MachineTyping.Proofs.Numeral.Digit
import MachineTyping.Proofs.Tree.Acceptance

namespace MachineTyping

/-! ## 1. Integers -/

/-- What may stand in front of the digits of an integer. -/
inductive Sign where
  | absent
  | plus
  | minus
deriving DecidableEq, Repr

/-- How a sign is written. -/
def Sign.text : Sign → String
  | .absent => ""
  | .plus => "+"
  | .minus => "-"

/-- The integer that a sign makes of a number. -/
def Sign.apply : Sign → Nat → Int
  | .absent, n => n
  | .plus, n => n
  | .minus, n => -n

/-- **The text is an integer of that value**: one sign or none, and one or more digits. -/
def IsInteger (text : String) (value : Int) : Prop :=
  ∃ (sign : Sign) (digits : Digits),
    digits ≠ [] ∧ text = sign.text ++ digits.text ∧ value = sign.apply digits.value

/-- The integers of 64 bits. -/
def IsInt64 (value : Int) : Prop := -2 ^ 63 ≤ value ∧ value ≤ 2 ^ 63 - 1

theorem isWord_iff {value : Int} : isWord value = true ↔ IsInt64 value := by
  rw [isWord, IsInt64, Bool.and_eq_true, decide_eq_true_eq, decide_eq_true_eq]
  omega

/-- No digit is a sign. -/
theorem Digits.head_ne_sign {digits : Digits} {c : Char} (h : c ∈ digits.chars.head?) :
    c ≠ '+' ∧ c ≠ '-' := by
  have hc : c.isDigit = true := List.all_eq_true.mp (Digits.all_isDigit_iff.mpr ⟨digits, rfl⟩) c
    (List.mem_of_mem_head? h)
  constructor
  · rintro rfl
    cases hc
  · rintro rfl
    cases hc

/-- After a sign, and without one where no sign is, a natural numeral is read. -/
theorem integerOfChars?_append (sign : Sign) {rest : List Char}
    (h : sign = .absent → ∀ c ∈ rest.head?, c ≠ '+' ∧ c ≠ '-') :
    integerOfChars? (sign.text.toList ++ rest) = (naturalOfChars? rest).map sign.apply := by
  cases sign with
  | absent =>
    show integerOfChars? rest = _
    unfold integerOfChars?
    split
    · exact absurd rfl (h rfl '+' rfl).1
    · exact absurd rfl (h rfl '-' rfl).2
    · cases naturalOfChars? rest <;> rfl
  | plus =>
    show integerOfChars? ('+' :: rest) = _
    rw [integerOfChars?]
    cases naturalOfChars? rest <;> rfl
  | minus =>
    show integerOfChars? ('-' :: rest) = _
    rw [integerOfChars?]
    cases naturalOfChars? rest <;> rfl

/-- Every text is a sign, if it begins with one, and what comes after. -/
theorem exists_sign (text : List Char) :
    ∃ (sign : Sign) (rest : List Char), text = sign.text.toList ++ rest ∧
      (sign = .absent → ∀ c ∈ rest.head?, c ≠ '+' ∧ c ≠ '-') := by
  by_cases hplus : text.head? = some '+'
  · obtain ⟨rest, rfl⟩ := List.head?_eq_some_iff.mp hplus
    exact ⟨.plus, rest, rfl, fun h => (nomatch h)⟩
  · by_cases hminus : text.head? = some '-'
    · obtain ⟨rest, rfl⟩ := List.head?_eq_some_iff.mp hminus
      exact ⟨.minus, rest, rfl, fun h => (nomatch h)⟩
    · refine ⟨.absent, text, rfl, fun _ c hc => ⟨?_, ?_⟩⟩
      · rintro rfl
        exact hplus hc
      · rintro rfl
        exact hminus hc

theorem integerOfChars?_eq_some_iff {text : String} {value : Int} :
    integerOfChars? text.toList = some value ↔ IsInteger text value := by
  constructor
  · intro h
    obtain ⟨sign, rest, ht, hrest⟩ := exists_sign text.toList
    rw [ht, integerOfChars?_append sign hrest] at h
    obtain ⟨n, hn, rfl⟩ := Option.map_eq_some_iff.mp h
    obtain ⟨digits, hne, rfl, rfl⟩ := naturalOfChars?_eq_some_iff.mp hn
    refine ⟨sign, digits, hne, ?_, rfl⟩
    rw [← String.toList_inj, ht, String.toList_append, Digits.toList_text]
  · rintro ⟨sign, digits, hne, rfl, rfl⟩
    have hn : naturalOfChars? digits.chars = some digits.value :=
      naturalOfChars?_eq_some_iff.mpr ⟨digits, hne, rfl, rfl⟩
    rw [String.toList_append, Digits.toList_text,
      integerOfChars?_append sign fun _ _ hc => Digits.head_ne_sign hc, hn, Option.map_some]

theorem integerOfText?_eq_some_iff {text : String} {value : Int} :
    integerOfText? text = some value ↔ IsInteger text value ∧ IsInt64 value := by
  rw [integerOfText?, Option.filter_eq_some_iff, integerOfChars?_eq_some_iff, isWord_iff]

/-! ## 2. Decimals -/

/-- **The two texts are a decimal of that value**: digits only, at least one of them in the fraction,
and each place of the fraction is a tenth of the one before it. -/
def IsDecimal (whole : Option String) (fraction : String) (value : ℚ) : Prop :=
  ∃ digits places : Digits, places ≠ [] ∧ whole.getD "" = digits.text ∧ fraction = places.text ∧
    value = (Digits.value (digits ++ places) : ℚ) / 10 ^ places.length

theorem IsDecimal.unique {whole : Option String} {fraction : String} {value value' : ℚ}
    (h : IsDecimal whole fraction value) (h' : IsDecimal whole fraction value') : value = value' := by
  obtain ⟨digits, places, -, hw, hf, rfl⟩ := h
  obtain ⟨digits', places', -, hw', hf', rfl⟩ := h'
  rw [Digits.text_inj.mp (hw.symm.trans hw'), Digits.text_inj.mp (hf.symm.trans hf')]

/-- A decimal is rounded, from its digits as one numeral over a power of ten. -/
theorem Binary64.ofDecimal?_eq_some_iff {whole fraction : String} {x : Binary64} :
    Binary64.ofDecimal? whole fraction = some x ↔
      ∃ digits places : Digits, places ≠ [] ∧ whole = digits.text ∧ fraction = places.text ∧
        x = .ofQuotient (Digits.value (digits ++ places)) (10 ^ places.length) := by
  simp only [Binary64.ofDecimal?]
  constructor
  · intro h
    split at h
    · rename_i hd
      obtain ⟨hne, hf, hw⟩ := hd
      obtain ⟨places, hplaces⟩ := Digits.all_isDigit_iff.mp hf
      obtain ⟨digits, hdigits⟩ := Digits.all_isDigit_iff.mp hw
      cases h
      rw [hplaces] at hne
      refine ⟨digits, places, fun hn => hne (Digits.chars_eq_nil_iff.mpr hn),
        Digits.text_eq_iff.mpr hdigits, Digits.text_eq_iff.mpr hplaces, ?_⟩
      rw [hdigits, hplaces, ← Digits.chars_append, Digits.digitsValue_chars, Digits.length_chars]
      rfl
    · cases h
  · rintro ⟨digits, places, hne, rfl, rfl, rfl⟩
    rw [Digits.toList_text, Digits.toList_text, if_pos, ← Digits.chars_append,
      Digits.digitsValue_chars, Digits.length_chars]
    · rfl
    · exact ⟨fun h => hne (Digits.chars_eq_nil_iff.mp h), Digits.all_isDigit_iff.mpr ⟨_, rfl⟩,
        Digits.all_isDigit_iff.mpr ⟨_, rfl⟩⟩

/-! ## 3. Literals -/

namespace Context

variable {ctx : Context} {span : Span} {t : Typed}

theorem checks_integer_iff {text : String} :
    ctx.Checks (.node span (.int text)) t ↔
      ∃ value, IsInteger text value ∧ IsInt64 value ∧ t = .node span .int (.int value) := by
  simp only [checks_int_iff, integerOfText?_eq_some_iff, and_assoc]

theorem check_integer_error {text : String} (h : ¬ ∃ value, IsInteger text value ∧ IsInt64 value) :
    (ctx.check (.node span (.int text))).verdict = .error ⟨.badNumber text, span⟩ := by
  have hnone : integerOfText? text = none := by
    rw [Option.eq_none_iff_forall_ne_some]
    intro value hvalue
    exact h ⟨value, integerOfText?_eq_some_iff.mp hvalue⟩
  exact Rule.int_eq_error_iff.mpr ⟨hnone, rfl⟩

theorem exists_checks_decimal_iff {whole : Option String} {fraction : String} :
    (∃ t, ctx.Checks (.node span (.float (.decimal whole fraction))) t) ↔
      ∃ digits places : Digits,
        places ≠ [] ∧ whole.getD "" = digits.text ∧ fraction = places.text := by
  simp only [checks_decimal_iff, Binary64.ofDecimal?_eq_some_iff]
  constructor
  · rintro ⟨t, x, ⟨digits, places, hne, hw, hf, -⟩, -⟩
    exact ⟨digits, places, hne, hw, hf⟩
  · rintro ⟨digits, places, hne, hw, hf⟩
    exact ⟨_, _, ⟨digits, places, hne, hw, hf, rfl⟩, rfl⟩

theorem check_decimal_error {whole : Option String} {fraction : String}
    (h : ¬ ∃ digits places : Digits,
      places ≠ [] ∧ whole.getD "" = digits.text ∧ fraction = places.text) :
    (ctx.check (.node span (.float (.decimal whole fraction)))).verdict =
      .error ⟨.badNumber (whole.getD "" ++ "." ++ fraction), span⟩ := by
  have hnone : Binary64.ofDecimal? (whole.getD "") fraction = none := by
    rw [Option.eq_none_iff_forall_ne_some]
    intro x hx
    obtain ⟨digits, places, hne, hw, hf, -⟩ := Binary64.ofDecimal?_eq_some_iff.mp hx
    exact h ⟨digits, places, hne, hw, hf⟩
  exact Rule.decimal_eq_error_iff.mpr ⟨hnone, rfl⟩

/-- **Number literals are exactly what their grammar says.**

An integer literal is accepted if its text is an integer of 64 bits, and is that integer.  A decimal
literal is accepted if its whole part, which may be empty or missing, and its fraction, which may
not, are digits.  Any other is refused with its text, and one with an exponent always. -/
theorem number_literals_follow_grammar (ctx : Context) (span : Span) :
    (∀ text t, ctx.Checks (.node span (.int text)) t ↔
      ∃ value, IsInteger text value ∧ IsInt64 value ∧ t = .node span .int (.int value)) ∧
    (∀ text, (¬ ∃ value, IsInteger text value ∧ IsInt64 value) →
      (ctx.check (.node span (.int text))).verdict = .error ⟨.badNumber text, span⟩) ∧
    (∀ whole fraction, (∃ t, ctx.Checks (.node span (.float (.decimal whole fraction))) t) ↔
      ∃ digits places : Digits,
        places ≠ [] ∧ whole.getD "" = digits.text ∧ fraction = places.text) ∧
    (∀ whole fraction,
      (¬ ∃ digits places : Digits,
        places ≠ [] ∧ whole.getD "" = digits.text ∧ fraction = places.text) →
      (ctx.check (.node span (.float (.decimal whole fraction)))).verdict =
        .error ⟨.badNumber (whole.getD "" ++ "." ++ fraction), span⟩) ∧
    ∀ base power, (ctx.check (.node span (.float (.exponent base power)))).verdict =
      .error ⟨.exponentLiteral, span⟩ := by
  refine ⟨?integers, ?noInteger, ?decimals, ?noDecimal, ?exponents⟩
  case integers =>
    intro text t
    exact checks_integer_iff
  case noInteger =>
    intro text h
    exact check_integer_error h
  case decimals =>
    intro whole fraction
    exact exists_checks_decimal_iff
  case noDecimal =>
    intro whole fraction h
    exact check_decimal_error h
  case exponents =>
    intro base power
    rfl

end Context

end MachineTyping
