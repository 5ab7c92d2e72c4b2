/-
# Decimals as binary floating-point numbers

A decimal `w.f` stands for the rational number `N / 10 ^ k`, with `N` read off the digits of both
parts and `k` the number of digits in `f`.  The machine keeps the binary64 number nearest to it,
of two equally near ones the one whose significand is even.

The rounding is done on exact naturals.  Every finite binary64 number is a multiple of the least
positive one, `2 ^ -1074`, so a quotient `n / d` is `n * 2 ^ 1074 / d` of those units.  Numbers
with the binary exponent `e` are the multiples of `2 ^ e` units, from `2 ^ 52` such steps on up to
`2 ^ 53`, and their bit patterns are consecutive: the pattern of `m` steps is `e * 2 ^ 52 + m`.
That holds for subnormal numbers, where `e` is zero and `m` is small, and also when rounding
carries `m` up to `2 ^ 53`, which is the first number of the next exponent.
-/
import MachineTyping.Numeral.Integer

namespace MachineTyping

/-! ## 1. Bit patterns -/

/-- A binary64 number, by its bit pattern. -/
structure Binary64 where
  bits : UInt64
deriving DecidableEq, Repr

/-- The pattern of positive infinity, as a number. -/
def Binary64.infinityBits : Nat := 0x7FF * Nat.pow 2 52

/-! ## 2. Rounding -/

/-- The natural number nearest to a quotient, of two equally near ones the even one. -/
def roundHalfEven (num den : Nat) : Nat :=
  let quotient := num / den
  let twice := 2 * (num % den)
  if twice < den ∨ (twice = den ∧ quotient % 2 = 0) then quotient else quotient + 1

/-- The binary exponent of a quotient that lies between the given natural number of units and the
next: steps of that size leave 53 bits, or the step is one unit. -/
def Binary64.exponentOf (units : Nat) : Nat := units.log2 - 52

/-- **The pattern nearest to the quotient `num / den`**, as a number.  What is too large for a
finite pattern becomes infinity. -/
def Binary64.roundBits (num den : Nat) : Nat :=
  let scaled := num * Nat.pow 2 1074
  let exponent := Binary64.exponentOf (scaled / den)
  let steps := roundHalfEven scaled (den * Nat.pow 2 exponent)
  min (exponent * Nat.pow 2 52 + steps) Binary64.infinityBits

/-- The binary64 number nearest to the quotient `num / den`. -/
def Binary64.ofQuotient (num den : Nat) : Binary64 := ⟨.ofNat (Binary64.roundBits num den)⟩

/-! ## 3. Decimal numerals -/

/-- The value of the decimal numeral `whole.fraction`, if it is one: both parts hold ASCII digits
only and the fraction holds at least one. -/
def Binary64.ofDecimal? (whole fraction : String) : Option Binary64 :=
  let whole := whole.toList
  let fraction := fraction.toList
  if fraction ≠ [] ∧ fraction.all Char.isDigit ∧ whole.all Char.isDigit then
    some (.ofQuotient (digitsValue (whole ++ fraction)) (Nat.pow 10 fraction.length))
  else none

/-! ## 4. Comparing -/

/-- The pattern without its sign. -/
def Binary64.magnitude (x : Binary64) : Nat := x.bits.toNat % Nat.pow 2 63

/-- Whether the pattern stands for no number, which is so beyond infinity. -/
def Binary64.isNaN (x : Binary64) : Bool := Binary64.infinityBits < x.magnitude

/-- **Whether two patterns are equal as numbers.**  What is no number is equal to nothing, not even to
itself, and the two patterns for zero are equal. -/
def Binary64.equals (x y : Binary64) : Bool :=
  !x.isNaN && !y.isNaN && (x == y || x.magnitude == 0 && y.magnitude == 0)

/-! ## 5. Examples -/

/-- One tenth is rounded up. -/
example : Binary64.ofDecimal? "0" "1" = some ⟨0x3fb999999999999a⟩ := by decide +kernel

/-- `2 ^ 53 + 1` is halfway between two numbers, and the even one is below; the least bit more
goes up. -/
example : Binary64.ofDecimal? "9007199254740993" "0" = some ⟨0x4340000000000000⟩ ∧
    Binary64.ofDecimal? "9007199254740993" "01" = some ⟨0x4340000000000001⟩ := by decide +kernel

/-- The parts are digits only, and the fraction is not empty. -/
example : Binary64.ofDecimal? "1" "" = none ∧ Binary64.ofDecimal? "" "5" = some ⟨0x3fe0000000000000⟩ ∧
    Binary64.ofDecimal? "-1" "5" = none := by decide +kernel

/-- Zero equals negative zero, infinity itself, and the pattern after it nothing. -/
example : Binary64.equals ⟨0⟩ ⟨0x8000000000000000⟩ = true ∧
    Binary64.equals ⟨0x7ff0000000000000⟩ ⟨0x7ff0000000000000⟩ = true ∧
    Binary64.equals ⟨0x7ff0000000000001⟩ ⟨0x7ff0000000000001⟩ = false := by decide +kernel

end MachineTyping
