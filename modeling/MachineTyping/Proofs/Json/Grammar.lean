/-
# Compact JSON

What is written is JSON, and compact: `Json.text` writes one value and nothing around it.  The
grammar is said here apart from the writer, `Json.Reads`, one constructor for each way to spell a
value:

* there are no blanks outside of strings;
* a string may spell a character as itself, unless it is a quote, a backslash or a control
  character, by a backslash and a letter, or by its code point in four hexadecimal digits;
* a number has no leading zero.  Numbers are naturals, as in `Json`.

The grammar allows more than is written: any character may be spelled by its code point, a slash by
an escape, and digits are of either case.

A phrase of the grammar is told by a text that begins with it and **what is left of the text**, as
the writers take what follows.  Two results: what the writer writes is in the grammar
(`Json.reads_write`), and no text of the grammar has a control character, so each is one line
(`Json.Reads.printable`).
-/
import Mathlib.Data.List.Basic
import MachineTyping.Json.Text
import MachineTyping.Numeral.Integer

namespace MachineTyping

namespace Json

/-! ## 1. Strings -/

/-- The value of a hexadecimal digit, of either case. -/
def hexValue? (c : Char) : Option Nat :=
  if '0' ≤ c ∧ c ≤ '9' then some (c.toNat - '0'.toNat)
  else if 'a' ≤ c ∧ c ≤ 'f' then some (c.toNat - 'a'.toNat + 10)
  else if 'A' ≤ c ∧ c ≤ 'F' then some (c.toNat - 'A'.toNat + 10)
  else none

/-- The character whose code point is given by four hexadecimal digits, if there is one. -/
def codePoint? (a b c d : Char) : Option Char :=
  match hexValue? a, hexValue? b, hexValue? c, hexValue? d with
  | some a, some b, some c, some d =>
    let n := ((a * 16 + b) * 16 + c) * 16 + d
    if n.isValidChar then some (Char.ofNat n) else none
  | _, _, _, _ => none

/-- The character that a backslash and a letter stand for. -/
def escape? : Char → Option Char
  | '"' => some '"'
  | '\\' => some '\\'
  | '/' => some '/'
  | 'b' => some '\x08'
  | 'f' => some '\x0c'
  | 'n' => some '\n'
  | 'r' => some '\r'
  | 't' => some '\t'
  | _ => none

/-- **The rest of a string**: the text begins with spellings of the characters `cs` and a quote. -/
inductive ReadsChars : List Char → List Char → List Char → Prop
  | close (rest : List Char) : ReadsChars ('"' :: rest) [] rest
  | plain {c : Char} {text cs rest : List Char} :
      0x20 ≤ c.toNat → c ≠ '"' → c ≠ '\\' → ReadsChars text cs rest →
      ReadsChars (c :: text) (c :: cs) rest
  | short {letter c : Char} {text cs rest : List Char} :
      escape? letter = some c → ReadsChars text cs rest →
      ReadsChars ('\\' :: letter :: text) (c :: cs) rest
  | code {d₁ d₂ d₃ d₄ c : Char} {text cs rest : List Char} :
      codePoint? d₁ d₂ d₃ d₄ = some c → ReadsChars text cs rest →
      ReadsChars ('\\' :: 'u' :: d₁ :: d₂ :: d₃ :: d₄ :: text) (c :: cs) rest

/-! ## 2. Values -/

/-- A numeral: ASCII digits, of which the first is a zero only if it is the only one. -/
def IsNumeral (digits : List Char) : Prop :=
  digits ≠ [] ∧ digits.all Char.isDigit ∧ (digits.head? = some '0' → digits = ['0'])

instance (digits : List Char) : Decidable (IsNumeral digits) :=
  inferInstanceAs (Decidable (_ ∧ _ ∧ _))

/-- The text does not go on with a digit. -/
def EndsNumeral (text : List Char) : Prop := ∀ c ∈ text.head?, ¬ c.isDigit

mutual

/-- **The text begins with a spelling of the value**, and `rest` is left. -/
inductive Reads : List Char → Json → List Char → Prop
  | null (rest : List Char) : Reads ('n' :: 'u' :: 'l' :: 'l' :: rest) .null rest
  | true (rest : List Char) : Reads ('t' :: 'r' :: 'u' :: 'e' :: rest) (.bool true) rest
  | false (rest : List Char) : Reads ('f' :: 'a' :: 'l' :: 's' :: 'e' :: rest) (.bool false) rest
  | num {digits rest : List Char} : IsNumeral digits → EndsNumeral rest →
      Reads (digits ++ rest) (.num (digitsValue digits)) rest
  | str {text cs rest : List Char} :
      ReadsChars text cs rest → Reads ('"' :: text) (.str (String.ofList cs)) rest
  | emptyArr (rest : List Char) : Reads ('[' :: ']' :: rest) (.arr []) rest
  | arr {text text' rest : List Char} {item : Json} {items : List Json} :
      Reads text item text' → ReadsItems text' items rest →
      Reads ('[' :: text) (.arr (item :: items)) rest
  | emptyObj (rest : List Char) : Reads ('\x7b' :: '\x7d' :: rest) (.obj []) rest
  | obj {text key text' text'' rest : List Char} {value : Json}
      {members : List (String × Json)} :
      ReadsChars text key (':' :: text') → Reads text' value text'' →
      ReadsMembers text'' members rest →
      Reads ('\x7b' :: '"' :: text) (.obj ((String.ofList key, value) :: members)) rest

/-- The text begins with further items, each after a comma, and the end of the array. -/
inductive ReadsItems : List Char → List Json → List Char → Prop
  | close (rest : List Char) : ReadsItems (']' :: rest) [] rest
  | next {text text' rest : List Char} {item : Json} {items : List Json} :
      Reads text item text' → ReadsItems text' items rest →
      ReadsItems (',' :: text) (item :: items) rest

/-- The text begins with further members, each after a comma, and the end of the object. -/
inductive ReadsMembers : List Char → List (String × Json) → List Char → Prop
  | close (rest : List Char) : ReadsMembers ('\x7d' :: rest) [] rest
  | next {text key text' text'' rest : List Char} {value : Json}
      {members : List (String × Json)} :
      ReadsChars text key (':' :: text') → Reads text' value text'' →
      ReadsMembers text'' members rest →
      ReadsMembers (',' :: '"' :: text) ((String.ofList key, value) :: members) rest

end

/-! ## 3. What is written -/

theorem hexValue?_hexDigit : ∀ n < 16, hexValue? (hexDigit n) = some n := by decide

/-- A control character has a code point of two digits. -/
theorem codePoint?_hexDigits {c : Char} (h : c.toNat < 0x20) :
    codePoint? '0' '0' (hexDigit (c.toNat / 16)) (hexDigit (c.toNat % 16)) = some c := by
  have hzero : hexValue? '0' = some 0 := rfl
  have hhigh := hexValue?_hexDigit (c.toNat / 16) (by omega)
  have hlow := hexValue?_hexDigit (c.toNat % 16) (by omega)
  have hn : ((0 * 16 + 0) * 16 + c.toNat / 16) * 16 + c.toNat % 16 = c.toNat := by omega
  have hvalid : c.toNat.isValidChar := c.valid
  simp only [codePoint?, hzero, hhigh, hlow, hn, if_pos hvalid, Char.ofNat_toNat]

theorem readsChars_escaped (c : Char) {text cs rest : List Char} (h : ReadsChars text cs rest) :
    ReadsChars (escaped c ++ text) (c :: cs) rest := by
  unfold escaped
  split
  case h_8 hquote hback _ _ _ _ _ =>
    split
    case isTrue hlow => exact .code (codePoint?_hexDigits hlow) h
    case isFalse hlow => exact .plain (Nat.le_of_not_lt hlow) hquote hback h
  all_goals exact .short rfl h

theorem readsChars_writeEscaped (cs rest : List Char) :
    ReadsChars (writeEscaped cs ('"' :: rest)) cs rest := by
  induction cs with
  | nil => exact .close rest
  | cons c cs ih => exact readsChars_escaped c ih

@[simp] theorem digitsValue_toDigits (n : Nat) : digitsValue (Nat.toDigits 10 n) = n :=
  Nat.ofDigitChars_ten_toDigits

theorem toDigits_eq_zero {n : Nat} (h : (Nat.toDigits 10 n).head? = some '0') :
    Nat.toDigits 10 n = ['0'] := by
  induction n using Nat.strongRecOn with
  | ind n ih =>
    by_cases hn : n < 10
    · rw [Nat.toDigits_of_lt_base hn] at h ⊢
      exact congrArg (fun c => [c]) (Option.some.inj h)
    · have hsplit := Nat.toDigits_of_base_le (b := 10) (by decide) (Nat.le_of_not_lt hn)
      rw [hsplit, List.head?_append_of_ne_nil _ Nat.toDigits_ne_nil] at h
      -- the digits before the last are those of a number that is not zero
      have hzero : n / 10 = digitsValue ['0'] := by
        rw [← ih (n / 10) (by omega) h, digitsValue_toDigits]
      have hz : digitsValue ['0'] = 0 := rfl
      omega

theorem IsNumeral.isDigit {digits : List Char} (h : IsNumeral digits) : ∀ c ∈ digits, c.isDigit :=
  List.all_eq_true.mp h.2.1

/-- A text that begins with a numeral begins with a digit. -/
theorem IsNumeral.isDigit_head {digits rest text : List Char} {c : Char} (h : IsNumeral digits)
    (ht : digits ++ rest = c :: text) : c.isDigit := by
  obtain ⟨d, ds, rfl⟩ := List.exists_cons_of_ne_nil h.1
  obtain ⟨rfl, -⟩ := List.cons.inj ht
  exact h.isDigit d List.mem_cons_self

theorem isNumeral_toDigits (n : Nat) : IsNumeral (Nat.toDigits 10 n) := by
  have hdigits : ∀ c ∈ Nat.toDigits 10 n, c.isDigit :=
    fun _ => Nat.isDigit_of_mem_toDigits (by decide) (by decide)
  exact ⟨Nat.toDigits_ne_nil, List.all_eq_true.mpr hdigits, toDigits_eq_zero⟩

theorem endsNumeral_writeItems (items : List Json) (rest : List Char) :
    EndsNumeral (writeItems items (']' :: rest)) := by
  cases items <;> simp [writeItems, EndsNumeral]

theorem endsNumeral_writeMembers (members : List (String × Json)) (rest : List Char) :
    EndsNumeral (writeMembers members ('\x7d' :: rest)) := by
  cases members <;> simp [writeMembers, EndsNumeral]

mutual

/-- **What is written for a value is a spelling of it.** -/
theorem reads_write : ∀ (value : Json) {rest : List Char}, EndsNumeral rest →
    Reads (value.write rest) value rest
  | .null, rest, _ => .null rest
  | .bool true, rest, _ => .true rest
  | .bool false, rest, _ => .false rest
  | .num n, rest, h => by
    have hn := Reads.num (isNumeral_toDigits n) h
    rwa [digitsValue_toDigits] at hn
  | .str s, rest, _ => by
    have hs := Reads.str (readsChars_writeEscaped s.toList rest)
    rwa [String.ofList_toList] at hs
  | .arr [], rest, _ => .emptyArr rest
  | .arr (item :: items), rest, _ =>
    .arr (reads_write item (endsNumeral_writeItems items rest)) (readsItems_write items rest)
  | .obj [], rest, _ => .emptyObj rest
  | .obj ((key, value) :: members), rest, _ => by
    have hkey := readsChars_writeEscaped key.toList
      (':' :: value.write (writeMembers members ('\x7d' :: rest)))
    have hobj := Reads.obj hkey (reads_write value (endsNumeral_writeMembers members rest))
      (readsMembers_write members rest)
    rwa [String.ofList_toList] at hobj

theorem readsItems_write : ∀ (items : List Json) (rest : List Char),
    ReadsItems (writeItems items (']' :: rest)) items rest
  | [], rest => .close rest
  | item :: items, rest =>
    .next (reads_write item (endsNumeral_writeItems items rest)) (readsItems_write items rest)

theorem readsMembers_write : ∀ (members : List (String × Json)) (rest : List Char),
    ReadsMembers (writeMembers members ('\x7d' :: rest)) members rest
  | [], rest => .close rest
  | (key, value) :: members, rest => by
    have hkey := readsChars_writeEscaped key.toList
      (':' :: value.write (writeMembers members ('\x7d' :: rest)))
    have hnext := ReadsMembers.next hkey (reads_write value (endsNumeral_writeMembers members rest))
      (readsMembers_write members rest)
    rwa [String.ofList_toList] at hnext

end

/-- **The text of a value spells it, and nothing is left.** -/
theorem reads_text (value : Json) : Reads value.text.toList value [] := by
  rw [Json.text, String.toList_ofList]
  exact reads_write value (by simp [EndsNumeral])

/-! ## 4. One line -/

/-- No control character occurs, and so no end of a line. -/
def Printable (text : List Char) : Prop := ∀ c ∈ text, 0x20 ≤ c.toNat

theorem printable_cons {c : Char} {text : List Char} :
    Printable (c :: text) ↔ 0x20 ≤ c.toNat ∧ Printable text :=
  List.forall_mem_cons

theorem printable_of_escape? {letter c : Char} (h : escape? letter = some c) :
    0x20 ≤ letter.toNat := by
  unfold escape? at h
  split at h
  all_goals cases h
  all_goals decide

theorem printable_of_hexValue? {c : Char} {n : Nat} (h : hexValue? c = some n) :
    0x20 ≤ c.toNat := by
  have hle : ∀ {a : Char}, 0x20 ≤ a.toNat → a ≤ c → 0x20 ≤ c.toNat :=
    fun ha hac => Nat.le_trans ha (UInt32.le_iff_toNat_le.mp hac)
  unfold hexValue? at h
  split at h
  case isTrue hc => exact hle (by decide) hc.1
  case isFalse =>
    split at h
    case isTrue hc => exact hle (by decide) hc.1
    case isFalse =>
      split at h
      case isTrue hc => exact hle (by decide) hc.1
      case isFalse => cases h

theorem printable_of_codePoint? {d₁ d₂ d₃ d₄ c : Char} (h : codePoint? d₁ d₂ d₃ d₄ = some c) :
    Printable [d₁, d₂, d₃, d₄] := by
  unfold codePoint? at h
  split at h
  case h_1 h₁ h₂ h₃ h₄ =>
    simp only [printable_cons]
    exact ⟨printable_of_hexValue? h₁, printable_of_hexValue? h₂, printable_of_hexValue? h₃,
      printable_of_hexValue? h₄, List.forall_mem_nil _⟩
  case h_2 => cases h

theorem printable_of_isDigit {c : Char} (h : c.isDigit) : 0x20 ≤ c.toNat := by
  have hc : '0'.toNat ≤ c.toNat := (Char.isDigit_iff_toNat.mp h).1
  exact Nat.le_trans (by decide) hc

theorem ReadsChars.printable {text cs rest : List Char} (h : ReadsChars text cs rest)
    (hr : Printable rest) : Printable text := by
  induction h with
  | close rest => exact printable_cons.mpr ⟨by decide, hr⟩
  | plain hc _ _ _ ih => exact printable_cons.mpr ⟨hc, ih hr⟩
  | short he _ ih =>
    exact printable_cons.mpr ⟨by decide, printable_cons.mpr ⟨printable_of_escape? he, ih hr⟩⟩
  | code hd _ ih =>
    have hdigits := printable_of_codePoint? hd
    simp only [printable_cons] at hdigits ⊢
    obtain ⟨h₁, h₂, h₃, h₄, -⟩ := hdigits
    exact ⟨by decide, by decide, h₁, h₂, h₃, h₄, ih hr⟩

mutual

/-- **The spelling of a value has no control characters.** -/
theorem Reads.printable : ∀ {text rest : List Char} {value : Json}, Reads text value rest →
    Printable rest → Printable text
  | _, _, _, .null rest, hr | _, _, _, .true rest, hr | _, _, _, .false rest, hr
  | _, _, _, .emptyArr rest, hr | _, _, _, .emptyObj rest, hr => by
    simpa [printable_cons] using hr
  | _, _, _, .num hn _, hr => fun c hc => by
    rcases List.mem_append.mp hc with hc | hc
    · exact printable_of_isDigit (hn.isDigit c hc)
    · exact hr c hc
  | _, _, _, .str hs, hr => printable_cons.mpr ⟨by decide, hs.printable hr⟩
  | _, _, _, .arr hi hs, hr => printable_cons.mpr ⟨by decide, hi.printable (hs.printable hr)⟩
  | _, _, _, .obj hk hv hs, hr => by
    have hkey := hk.printable (printable_cons.mpr ⟨by decide, hv.printable (hs.printable hr)⟩)
    exact printable_cons.mpr ⟨by decide, printable_cons.mpr ⟨by decide, hkey⟩⟩

theorem ReadsItems.printable : ∀ {text rest : List Char} {items : List Json},
    ReadsItems text items rest → Printable rest → Printable text
  | _, _, _, .close rest, hr => printable_cons.mpr ⟨by decide, hr⟩
  | _, _, _, .next hi hs, hr => printable_cons.mpr ⟨by decide, hi.printable (hs.printable hr)⟩

theorem ReadsMembers.printable : ∀ {text rest : List Char} {members : List (String × Json)},
    ReadsMembers text members rest → Printable rest → Printable text
  | _, _, _, .close rest, hr => printable_cons.mpr ⟨by decide, hr⟩
  | _, _, _, .next hk hv hs, hr => by
    have hkey := hk.printable (printable_cons.mpr ⟨by decide, hv.printable (hs.printable hr)⟩)
    exact printable_cons.mpr ⟨by decide, printable_cons.mpr ⟨by decide, hkey⟩⟩

end

end Json

end MachineTyping
