/-
# Integer numerals

A natural numeral is one or more ASCII digits; leading zeros are allowed and no other character
is.  An integer numeral may have one sign in front, and its value must be a 64-bit signed word.
-/
namespace MachineTyping

/-! ## 1. Naturals -/

/-- The number that a digit stands for. -/
def digitValue (c : Char) : Nat := c.toNat - '0'.toNat

/-- The number that a row of digits stands for, in base ten, the empty row being zero. -/
def digitsValue (digits : List Char) : Nat :=
  digits.foldl (fun value c => 10 * value + digitValue c) 0

/-- The value of a natural numeral, if that is what the text is. -/
def naturalOfChars? (text : List Char) : Option Nat :=
  if text ≠ [] ∧ text.all Char.isDigit then some (digitsValue text) else none

/-! ## 2. Signed words -/

/-- The integers that a 64-bit signed word holds. -/
def isWord (value : Int) : Bool :=
  -0x8000000000000000 ≤ value && value < 0x8000000000000000

/-- The integer that an optional sign and a natural numeral stand for, of any size. -/
def integerOfChars? : List Char → Option Int
  | '+' :: digits => (naturalOfChars? digits).map fun n => (n : Int)
  | '-' :: digits => (naturalOfChars? digits).map fun n => -(n : Int)
  | digits => (naturalOfChars? digits).map fun n => (n : Int)

/-- **The value of an integer numeral**, if the text is one and its value fits in a word. -/
def integerOfText? (text : String) : Option Int :=
  (integerOfChars? text.toList).filter isWord

/-! ## 3. Examples -/

/-- Words reach one further down than up, and leading zeros do not count. -/
example : integerOfText? "-9223372036854775808" = some (-9223372036854775808) ∧
    integerOfText? "9223372036854775808" = none ∧
    integerOfText? "+0009" = some 9 := by decide +kernel

/-- One sign at most, at least one digit, and nothing else. -/
example : integerOfText? "+-1" = none ∧ integerOfText? "-" = none ∧
    integerOfText? "" = none ∧ integerOfText? "1_0" = none := by decide +kernel

end MachineTyping
