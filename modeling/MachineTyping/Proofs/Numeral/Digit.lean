/-
# Rows of digits

Numerals and indices are read by a fold over characters (`digitsValue`).  Here they are told from
the side of what is written: a row of digits (`Digits`) has a text and a number in base ten, and a
text is read exactly if it is that of a row (`naturalOfChars?_eq_some_iff`), as the row's number.

A machine reads digit by digit into a word and gives up when the next digit does not fit.  That is
`readBelow?`, and it accepts the same texts as long as the number fits (`readBelow?_eq`): the value
so far never decreases, so nothing is refused halfway that would have fitted in the end, and
zeros in front do no harm.
-/
import Mathlib.Data.List.Induction
import Mathlib.Data.Nat.Digits.Defs
import MachineTyping.Numeral.Integer

namespace MachineTyping

/-! ## 1. Rows, their texts and their numbers -/

/-- A row of decimal digits, the most significant one first. -/
abbrev Digits := List (Fin 10)

/-- The characters of a row of digits. -/
def Digits.chars (digits : Digits) : List Char := digits.map fun d => Nat.digitChar d.val

/-- How a row of digits is written. -/
def Digits.text (digits : Digits) : String := String.ofList digits.chars

/-- The number that a row of digits stands for in base ten. -/
def Digits.value (digits : Digits) : Nat := Nat.ofDigits 10 (digits.map Fin.val).reverse

namespace Digits

variable {digits more : Digits}

@[simp] theorem toList_text (digits : Digits) : digits.text.toList = digits.chars :=
  String.toList_ofList

@[simp] theorem length_chars (digits : Digits) : digits.chars.length = digits.length :=
  List.length_map _

@[simp] theorem chars_append (digits more : Digits) :
    Digits.chars (digits ++ more) = digits.chars ++ more.chars :=
  List.map_append

@[simp] theorem chars_eq_nil_iff : digits.chars = [] ↔ digits = [] := List.map_eq_nil_iff

theorem text_append (digits more : Digits) :
    Digits.text (digits ++ more) = digits.text ++ more.text := by
  rw [text, chars_append, String.ofList_append, text, text]

theorem text_eq_iff {text : String} : text = digits.text ↔ text.toList = digits.chars := by
  rw [← toList_text, String.toList_inj]

/-- A row and its continuation: every further digit moves the row by one place. -/
theorem value_append (digits more : Digits) :
    Digits.value (digits ++ more) = digits.value * 10 ^ more.length + more.value := by
  rw [value, List.map_append, List.reverse_append, Nat.ofDigits_append, List.length_reverse,
    List.length_map, value, value]
  ring

theorem value_concat (digits : Digits) (d : Fin 10) :
    Digits.value (digits ++ [d]) = 10 * digits.value + d.val := by
  rw [value_append]
  simp [value]
  ring

@[simp] theorem value_zeros (n : Nat) : Digits.value (List.replicate n 0) = 0 := by
  rw [value, List.map_replicate, List.reverse_replicate]
  exact Nat.ofDigits_replicate_zero

/-- Zeros in front do not count. -/
theorem value_zeros_append (n : Nat) (digits : Digits) :
    Digits.value (List.replicate n 0 ++ digits) = digits.value := by
  rw [value_append, value_zeros, Nat.zero_mul, Nat.zero_add]

/-! ## 2. Reading -/

/-- The characters that are digits are the ten of them. -/
theorem isDigit_iff_exists {c : Char} : c.isDigit = true ↔ ∃ d : Fin 10, c = Nat.digitChar d.val := by
  constructor
  · intro h
    obtain ⟨hlo, hhi⟩ := Char.isDigit_iff_toNat.mp h
    have h0 : '0'.toNat = 48 := rfl
    have h9 : '9'.toNat = 57 := rfl
    have hlt : c.toNat - 48 < 10 := by omega
    refine ⟨⟨c.toNat - 48, hlt⟩, Char.toNat_inj.mp ?_⟩
    rw [Nat.toNat_digitChar_of_lt_ten hlt]
    omega
  · rintro ⟨d, rfl⟩
    rw [Nat.isDigit_digitChar]
    exact decide_eq_true d.isLt

theorem digitValue_digitChar (d : Fin 10) : digitValue (Nat.digitChar d.val) = d.val := by
  rw [digitValue, Nat.toNat_digitChar_of_lt_ten d.isLt]
  exact Nat.add_sub_cancel_left ..

/-- No two rows are written alike. -/
theorem text_inj : digits.text = more.text ↔ digits = more := by
  rw [text_eq_iff, toList_text]
  refine List.map_inj_right fun d e h => Fin.ext ?_
  rw [← digitValue_digitChar d, h, digitValue_digitChar]

/-- The texts of digits only are those of rows. -/
theorem all_isDigit_iff {text : List Char} :
    text.all Char.isDigit = true ↔ ∃ digits : Digits, text = digits.chars := by
  induction text with
  | nil => exact ⟨fun _ => ⟨[], rfl⟩, fun _ => rfl⟩
  | cons c text ih =>
    rw [List.all_cons, Bool.and_eq_true, ih, isDigit_iff_exists]
    constructor
    · rintro ⟨⟨d, rfl⟩, digits, rfl⟩
      exact ⟨d :: digits, rfl⟩
    · rintro ⟨digits, h⟩
      cases digits with
      | nil => cases h
      | cons d digits =>
        obtain ⟨rfl, rfl⟩ := List.cons.inj h
        exact ⟨⟨d, rfl⟩, digits, rfl⟩

/-- The fold over the characters of a row comes to its number. -/
@[simp] theorem digitsValue_chars (digits : Digits) : digitsValue digits.chars = digits.value := by
  induction digits using List.reverseRecOn with
  | nil => rfl
  | append_singleton digits d ih =>
    rw [chars_append, digitsValue, List.foldl_append, value_concat, ← ih]
    simp [chars, digitsValue, digitValue_digitChar]

end Digits

/-- **A natural numeral is the text of a row of one or more digits**, and its value is theirs. -/
theorem naturalOfChars?_eq_some_iff {text : List Char} {n : Nat} :
    naturalOfChars? text = some n ↔
      ∃ digits : Digits, digits ≠ [] ∧ text = digits.chars ∧ n = digits.value := by
  unfold naturalOfChars?
  constructor
  · intro h
    split at h
    · rename_i hd
      obtain ⟨digits, rfl⟩ := Digits.all_isDigit_iff.mp hd.2
      cases h
      exact ⟨digits, fun hn => hd.1 (Digits.chars_eq_nil_iff.mpr hn), rfl,
        Digits.digitsValue_chars digits⟩
    · cases h
  · rintro ⟨digits, hn, rfl, rfl⟩
    rw [if_pos ⟨fun h => hn (Digits.chars_eq_nil_iff.mp h), Digits.all_isDigit_iff.mpr ⟨_, rfl⟩⟩,
      Digits.digitsValue_chars]

/-! ## 3. Reading into a word -/

/-- The value after one more digit, if it stays below the bound. -/
def accumulate? (bound value : Nat) (c : Char) : Option Nat :=
  let next := 10 * value + digitValue c
  if next < bound then some next else none

/-- The value of a natural numeral, read digit by digit into a word that holds the numbers below
`bound`. -/
def readBelow? (bound : Nat) (text : List Char) : Option Nat :=
  if text ≠ [] ∧ text.all Char.isDigit then text.foldlM (accumulate? bound) 0 else none

/-- The value so far does not decrease. -/
theorem le_foldl_digits (text : List Char) (value : Nat) :
    value ≤ text.foldl (fun value c => 10 * value + digitValue c) value := by
  induction text generalizing value with
  | nil => exact Nat.le_refl value
  | cons c text ih =>
    have := ih (10 * value + digitValue c)
    rw [List.foldl_cons]
    omega

theorem foldlM_accumulate? {bound value : Nat} (text : List Char) (h : value < bound) :
    text.foldlM (accumulate? bound) value =
      let total := text.foldl (fun value c => 10 * value + digitValue c) value
      if total < bound then some total else none := by
  induction text generalizing value with
  | nil => exact (if_pos h).symm
  | cons c text ih =>
    rw [List.foldlM_cons, List.foldl_cons, accumulate?]
    by_cases hnext : 10 * value + digitValue c < bound
    · rw [if_pos hnext]
      exact ih hnext
    · have hle := le_foldl_digits text (10 * value + digitValue c)
      simp only [if_neg hnext, Option.bind_eq_bind, Option.bind_none]
      rw [if_neg (by omega)]

/-- **Checking after each digit that the value fits is checking it at the end.** -/
theorem readBelow?_eq {bound : Nat} (h : 0 < bound) (text : List Char) :
    readBelow? bound text = (naturalOfChars? text).filter (· < bound) := by
  unfold readBelow? naturalOfChars?
  split
  · rw [foldlM_accumulate? text h, Option.filter_some, digitsValue]
    simp only [decide_eq_true_eq]
  · rfl

end MachineTyping
