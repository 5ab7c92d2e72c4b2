/-
# Rounding to the nearest pattern

`Binary64.roundBits` rounds twice over naturals: it picks a step, rounds the quotient to a number of
steps, and counts patterns.  This module shows that the pattern it counts is the nearest of all
(`Binary64.isNearestEven_roundUnbounded`), where a pattern is a place on a scale of rationals
(`Binary64.scale`) and the last place is infinitely far away.

Two things make the scale simple, and nothing else about patterns is needed:

* from `2 ^ 52` steps on up to `2 ^ 53`, and from none if the step is the least one, the places are
  one step apart (`Binary64.units_steps`), and so the scale is strictly increasing;
* the pattern is even exactly if its number of steps is, so that of two equally near places the even
  one is the one with the even number of steps.

A carry to `2 ^ 53` steps is the first place with the next step.  At `2 ^ 52` steps the place below
is only half a step away, but there the quotient is not below, because it has been rounded down.
-/
import Mathlib.Algebra.Order.Field.Basic
import Mathlib.Algebra.Order.Field.Rat
import Mathlib.Order.Monotone.Basic
import Mathlib.Tactic.FieldSimp
import Mathlib.Tactic.Linarith
import Mathlib.Tactic.Ring
import MachineTyping.Numeral.Binary64

namespace MachineTyping

/-! ## 1. The nearest place on a scale -/

/-- **The place is where the scale is nearest to `q`**, and if another is as near, it is the even
one. -/
structure IsNearestEven (scale : Nat → ℚ) (q : ℚ) (place : Nat) : Prop where
  nearest : ∀ other, |q - scale place| ≤ |q - scale other|
  even : ∀ other, other ≠ place → |q - scale place| = |q - scale other| → Even place

namespace IsNearestEven

variable {scale : Nat → ℚ} {q q' step : ℚ} {place place' bound : Nat}

/-- A place that is at most half a step away is nearest, if the other places are a whole step apart
from it: those above always, and those below if `q` is below too. -/
theorem of_step (hscale : StrictMono scale) (hnear : 2 * |q - scale place| ≤ step)
    (htie : 2 * |q - scale place| = step → Even place)
    (hup : scale place + step ≤ scale (place + 1))
    (hdown : scale place ≤ q ∨ ∀ other < place, scale other + step ≤ scale place) :
    IsNearestEven scale q place := by
  -- a place that is a step apart is as near at most in a tie
  have hfar : ∀ other, step ≤ |scale other - scale place| →
      |q - scale place| ≤ |q - scale other| ∧
        (|q - scale place| = |q - scale other| → Even place) := by
    intro other hstep
    have htriangle := abs_sub_le (scale other) q (scale place)
    rw [abs_sub_comm (scale other) q] at htriangle
    refine ⟨by linarith, fun heq => htie ?_⟩
    linarith
  have hother : ∀ other, other ≠ place →
      |q - scale place| ≤ |q - scale other| ∧
        (|q - scale place| = |q - scale other| → Even place) := by
    intro other hne
    rcases Nat.lt_or_gt_of_ne hne with hlt | hgt
    · rcases hdown with hq | hbelow
      · have hlower := hscale hlt
        rw [abs_of_nonneg (by linarith : 0 ≤ q - scale place),
          abs_of_nonneg (by linarith : 0 ≤ q - scale other)]
        refine ⟨by linarith, fun heq => ?_⟩
        linarith
      · refine hfar other ?_
        rw [abs_sub_comm]
        exact le_trans (by linarith [hbelow other hlt]) (le_abs_self _)
    · have habove : scale (place + 1) ≤ scale other := hscale.monotone hgt
      exact hfar other (le_trans (by linarith) (le_abs_self _))
  constructor
  · intro other
    by_cases hne : other = place
    · rw [hne]
    · exact (hother other hne).1
  · intro other hne
    exact (hother other hne).2

/-- The nearest place moves up with what is rounded. -/
theorem mono (hscale : StrictMono scale) (h : IsNearestEven scale q place)
    (h' : IsNearestEven scale q' place') (hq : q ≤ q') : place ≤ place' := by
  by_contra hlt
  have hlt : place' < place := Nat.lt_of_not_le hlt
  have hs := hscale hlt
  have hn := h.nearest place'
  have hn' := h'.nearest place
  -- `q` is not below the middle of the two places, and `q'` is not above it
  have hmiddle : scale place' + scale place ≤ 2 * q := by
    rcases abs_cases (q - scale place) with ⟨ha, _⟩ | ⟨ha, _⟩ <;>
      rcases abs_cases (q - scale place') with ⟨hb, _⟩ | ⟨hb, _⟩ <;>
      linarith
  have hmiddle' : 2 * q' ≤ scale place' + scale place := by
    rcases abs_cases (q' - scale place) with ⟨ha, _⟩ | ⟨ha, _⟩ <;>
      rcases abs_cases (q' - scale place') with ⟨hb, _⟩ | ⟨hb, _⟩ <;>
      linarith
  obtain rfl : q = q' := by linarith
  have heq : |q - scale place| = |q - scale place'| := le_antisymm hn hn'
  obtain ⟨k, hk⟩ := h.even place' (Nat.ne_of_lt hlt) heq
  obtain ⟨k', hk'⟩ := h'.even place (Nat.ne_of_gt hlt) heq.symm
  -- both are even, so there is a place between them, and it is nearer
  have hlow := hscale (show place' < place' + 1 by omega)
  have hhigh := hscale (show place' + 1 < place by omega)
  have hbetween := h.nearest (place' + 1)
  rcases abs_cases (q - scale place) with ⟨ha, _⟩ | ⟨ha, _⟩ <;>
    rcases abs_cases (q - scale (place' + 1)) with ⟨hb, _⟩ | ⟨hb, _⟩ <;>
    linarith

/-- The nearest place is up to an odd one exactly if what is rounded is below the middle between that
one and the next, which a tie would go to. -/
theorem le_iff (hscale : StrictMono scale) (h : IsNearestEven scale q place) (hodd : ¬ Even bound) :
    place ≤ bound ↔ 2 * q < scale bound + scale (bound + 1) := by
  have hs := hscale (Nat.lt_succ_self bound)
  constructor
  · intro hle
    by_contra hq
    have hle' := hscale.monotone hle
    have hn := h.nearest (bound + 1)
    have heq : |q - scale place| = |q - scale (bound + 1)| ∧ scale place = scale bound := by
      rcases abs_cases (q - scale place) with ⟨ha, _⟩ | ⟨ha, _⟩ <;>
        rcases abs_cases (q - scale (bound + 1)) with ⟨hb, _⟩ | ⟨hb, _⟩ <;>
        constructor <;> linarith
    obtain rfl := hscale.injective heq.2
    exact hodd (h.even _ (Nat.succ_ne_self _) heq.1)
  · intro hq
    by_contra hlt
    have hge := hscale.monotone (Nat.lt_of_not_le hlt : bound + 1 ≤ place)
    have hn := h.nearest bound
    rcases abs_cases (q - scale place) with ⟨ha, _⟩ | ⟨ha, _⟩ <;>
      rcases abs_cases (q - scale bound) with ⟨hb, _⟩ | ⟨hb, _⟩ <;>
      linarith

end IsNearestEven

/-! ## 2. The nearest natural number -/

section Naturals

variable {num den : Nat}

theorem roundHalfEven_bounds (num den : Nat) :
    num / den ≤ roundHalfEven num den ∧ roundHalfEven num den ≤ num / den + 1 := by
  simp only [roundHalfEven]
  split <;> omega

/-- What is rounded to a natural number is off by half at most, and by half only from an even one. -/
theorem roundHalfEven_near (num : Nat) (hden : 0 < den) :
    2 * |(num : ℚ) - roundHalfEven num den * den| ≤ den ∧
      (2 * |(num : ℚ) - roundHalfEven num den * den| = den → Even (roundHalfEven num den)) := by
  have hsplit : (num : ℚ) = (num / den : Nat) * den + (num % den : Nat) := by
    exact_mod_cast (Nat.div_add_mod' num den).symm
  have hrest := Nat.mod_lt num hden
  simp only [roundHalfEven]
  split
  · rename_i hlow
    have habs : |(num : ℚ) - (num / den : Nat) * den| = (num % den : Nat) := by
      rw [hsplit, add_sub_cancel_left, Nat.abs_cast]
    rw [habs]
    norm_cast
    exact ⟨by omega, fun htie => Nat.even_iff.mpr (by omega)⟩
  · rename_i hhigh
    have habs : |(num : ℚ) - (num / den + 1 : Nat) * den| = (den - num % den : Nat) := by
      rw [hsplit, Nat.cast_sub hrest.le, abs_of_nonpos]
      · push_cast
        ring
      · have : ((num % den : Nat) : ℚ) ≤ den := by exact_mod_cast hrest.le
        push_cast
        linarith
    rw [habs]
    norm_cast
    exact ⟨by omega, fun htie => Nat.even_iff.mpr (by omega)⟩

end Naturals

/-! ## 3. Patterns as places on a scale -/

namespace Binary64

/-- What a pattern without a sign stands for, in units of the least positive number.  Exponents go on
beyond those of finite numbers here. -/
def units (bits : Nat) : Nat :=
  (if bits / 2 ^ 52 = 0 then bits % 2 ^ 52 else 2 ^ 52 + bits % 2 ^ 52) * 2 ^ (bits / 2 ^ 52 - 1)

/-- How many units one is.  The number is not to be computed in proofs. -/
@[irreducible] def unitsPerOne : Nat := Nat.pow 2 1074

theorem unitsPerOne_eq : unitsPerOne = Nat.pow 2 1074 := by
  unfold unitsPerOne
  exact Eq.refl _

theorem cast_unitsPerOne {n : Nat} (h : n = 1074) : (unitsPerOne : ℚ) = 2 ^ n := by
  rw [unitsPerOne_eq, ← h]
  exact Nat.cast_pow 2 n

theorem unitsPerOne_pos : 0 < unitsPerOne := by
  have hpos : (0 : ℚ) < unitsPerOne := by
    rw [cast_unitsPerOne rfl]
    positivity
  exact_mod_cast hpos

/-- What a pattern without a sign stands for. -/
def scale (bits : Nat) : ℚ := units bits / unitsPerOne

variable {exponent steps bits bits' : Nat}

/-- **The pattern of a number of steps.** -/
theorem units_steps (h : steps ≤ 2 ^ 53) (hnormal : exponent = 0 ∨ 2 ^ 52 ≤ steps) :
    units (exponent * 2 ^ 52 + steps) = steps * 2 ^ exponent := by
  rcases Nat.lt_or_ge steps (2 ^ 52) with hlow | hlow
  · obtain rfl : exponent = 0 := by omega
    rw [units, Nat.zero_mul, Nat.zero_add, Nat.div_eq_of_lt hlow, Nat.mod_eq_of_lt hlow, if_pos rfl]
  · rcases Nat.lt_or_eq_of_le h with hhigh | rfl
    · have hdiv : (exponent * 2 ^ 52 + steps) / 2 ^ 52 = exponent + 1 := by omega
      have hmod : (exponent * 2 ^ 52 + steps) % 2 ^ 52 = steps - 2 ^ 52 := by omega
      rw [units, hdiv, hmod, if_neg (Nat.succ_ne_zero _), Nat.add_sub_cancel' hlow,
        Nat.add_sub_cancel]
    · have hdiv : (exponent * 2 ^ 52 + 2 ^ 53) / 2 ^ 52 = exponent + 2 := by omega
      have hmod : (exponent * 2 ^ 52 + 2 ^ 53) % 2 ^ 52 = 0 := by omega
      rw [units, hdiv, hmod, if_neg (Nat.succ_ne_zero _), Nat.add_zero,
        show exponent + 2 - 1 = exponent + 1 by omega, Nat.pow_succ]
      omega

/-- Every pattern is that of a number of steps. -/
theorem exists_steps (bits : Nat) :
    ∃ exponent steps, bits = exponent * 2 ^ 52 + steps ∧ steps < 2 ^ 53 ∧
      (exponent = 0 ∨ 2 ^ 52 ≤ steps) := by
  by_cases hlow : bits < 2 ^ 52
  · exact ⟨0, bits, by omega, by omega, Or.inl rfl⟩
  · exact ⟨bits / 2 ^ 52 - 1, 2 ^ 52 + bits % 2 ^ 52, by omega, by omega, Or.inr (by omega)⟩

theorem units_strictMono : StrictMono units := by
  refine strictMono_nat_of_lt_succ fun bits => ?_
  obtain ⟨exponent, steps, rfl, hlt, hnormal⟩ := exists_steps bits
  rw [Nat.add_assoc, units_steps hlt.le hnormal, units_steps hlt (by omega)]
  exact Nat.mul_lt_mul_of_pos_right (Nat.lt_succ_self steps) (Nat.two_pow_pos exponent)

theorem scale_strictMono : StrictMono scale := by
  intro bits bits' h
  have hunits : (units bits : ℚ) < units bits' := by exact_mod_cast units_strictMono h
  exact div_lt_div_of_pos_right hunits (by exact_mod_cast unitsPerOne_pos)

/-- Places that are so many units apart, on the scale. -/
theorem scale_add_le_iff {count : Nat} :
    scale bits + count / unitsPerOne ≤ scale bits' ↔ units bits + count ≤ units bits' := by
  rw [scale, scale, ← add_div, div_le_div_iff_of_pos_right (by exact_mod_cast unitsPerOne_pos)]
  norm_cast

/-- The next pattern is a step away, or two of them after a carry. -/
theorem units_add_step_le (h : steps ≤ 2 ^ 53) (hnormal : exponent = 0 ∨ 2 ^ 52 ≤ steps) :
    units (exponent * 2 ^ 52 + steps) + 2 ^ exponent ≤ units (exponent * 2 ^ 52 + steps + 1) := by
  rw [units_steps h hnormal]
  rcases Nat.lt_or_eq_of_le h with hlt | rfl
  · rw [Nat.add_assoc, units_steps hlt (by omega), Nat.succ_mul]
  · have hcarry : exponent * 2 ^ 52 + 2 ^ 53 + 1 = (exponent + 1) * 2 ^ 52 + (2 ^ 52 + 1) := by omega
    rw [hcarry, units_steps (by omega) (by omega), Nat.pow_succ]
    omega

/-- The patterns before are a step away, unless the step changes there. -/
theorem units_le_sub_step (h : steps ≤ 2 ^ 53) (hnormal : exponent = 0 ∨ 2 ^ 52 < steps)
    (hlt : bits < exponent * 2 ^ 52 + steps) :
    units bits + 2 ^ exponent ≤ units (exponent * 2 ^ 52 + steps) := by
  have hpos : 0 < steps := by omega
  have hle : units bits ≤ units (exponent * 2 ^ 52 + (steps - 1)) :=
    units_strictMono.monotone (by omega)
  rw [units_steps (by omega) (by omega)] at hle
  rw [units_steps h (by omega)]
  calc units bits + 2 ^ exponent ≤ (steps - 1) * 2 ^ exponent + 2 ^ exponent := by omega
    _ = (steps - 1 + 1) * 2 ^ exponent := (Nat.succ_mul _ _).symm
    _ = steps * 2 ^ exponent := by rw [Nat.sub_add_cancel hpos]

/-- The pattern is even exactly if the number of steps is. -/
theorem even_pattern_iff : Even (exponent * 2 ^ 52 + steps) ↔ Even steps := by
  rw [Nat.even_iff, Nat.even_iff]
  omega

/-! ## 4. The rounded pattern -/

/-- The exponent leaves 53 bits, or it is zero. -/
theorem exponentOf_bounds (count : Nat) :
    count < 2 ^ 53 * 2 ^ exponentOf count ∧
      (exponentOf count ≠ 0 → 2 ^ 52 * 2 ^ exponentOf count ≤ count) := by
  rw [← Nat.pow_add, ← Nat.pow_add, exponentOf]
  constructor
  · refine Nat.lt_of_lt_of_le Nat.lt_log2_self (Nat.pow_le_pow_right (by omega) (by omega))
  · intro h
    have hne : count ≠ 0 := by
      rintro rfl
      exact h rfl
    calc 2 ^ (52 + (count.log2 - 52)) = 2 ^ count.log2 := by congr 1; omega
      _ ≤ count := Nat.log2_self_le hne

/-- The pattern that a quotient is rounded to, if exponents go on beyond those of finite numbers. -/
def roundUnbounded (num den : Nat) : Nat :=
  let scaled := num * unitsPerOne
  let exponent := exponentOf (scaled / den)
  exponent * 2 ^ 52 + roundHalfEven scaled (den * 2 ^ exponent)

theorem roundBits_eq (num den : Nat) :
    roundBits num den = min (roundUnbounded num den) infinityBits := by
  unfold roundBits roundUnbounded
  rw [unitsPerOne_eq]
  rfl

/-- The number of steps is one that a pattern has, and if it is the least one with its step, the
quotient has been rounded down. -/
theorem steps_bounds (scaled den : Nat) :
    let exponent := exponentOf (scaled / den)
    let steps := roundHalfEven scaled (den * 2 ^ exponent)
    steps ≤ 2 ^ 53 ∧ (exponent = 0 ∨ 2 ^ 52 < steps ∨
      steps = 2 ^ 52 ∧ steps * (den * 2 ^ exponent) ≤ scaled) := by
  intro exponent steps
  obtain ⟨hlt, hge⟩ := exponentOf_bounds (scaled / den)
  obtain ⟨hlow, hhigh⟩ := roundHalfEven_bounds scaled (den * 2 ^ exponent)
  have hquot : scaled / (den * 2 ^ exponent) < 2 ^ 53 := by
    rw [← Nat.div_div_eq_div_mul]
    exact Nat.div_lt_of_lt_mul (by rwa [Nat.mul_comm])
  refine ⟨hhigh.trans hquot, ?_⟩
  by_cases hzero : exponent = 0
  · exact Or.inl hzero
  · have hnormal : 2 ^ 52 ≤ scaled / (den * 2 ^ exponent) := by
      rw [← Nat.div_div_eq_div_mul]
      exact (Nat.le_div_iff_mul_le (Nat.two_pow_pos _)).mpr (hge hzero)
    rcases Nat.lt_or_eq_of_le (hnormal.trans hlow) with hsteps | hsteps
    · exact Or.inr (Or.inl hsteps)
    · refine Or.inr (Or.inr ⟨hsteps.symm, ?_⟩)
      have hquot : steps = scaled / (den * 2 ^ exponent) := by omega
      rw [hquot]
      exact Nat.div_mul_le_self ..

/-- How far a quotient is from a place, over a common denominator. -/
theorem sub_scale (num : Nat) {den : Nat} (hden : 0 < den) (bits : Nat) :
    (num / den : ℚ) - scale bits =
      ((num * unitsPerOne : Nat) - units bits * den : ℚ) / (den * unitsPerOne) := by
  have hden : (den : ℚ) ≠ 0 := by exact_mod_cast hden.ne'
  have hone : (unitsPerOne : ℚ) ≠ 0 := by exact_mod_cast unitsPerOne_pos.ne'
  rw [scale]
  push_cast
  field_simp

/-- **A quotient is rounded to the nearest pattern.** -/
theorem isNearestEven_roundUnbounded (num : Nat) {den : Nat} (hden : 0 < den) :
    IsNearestEven scale (num / den) (roundUnbounded num den) := by
  obtain ⟨hle, hnormal⟩ := steps_bounds (num * unitsPerOne) den
  obtain ⟨hnear, htie⟩ := roundHalfEven_near (num * unitsPerOne)
    (Nat.mul_pos hden (Nat.two_pow_pos (exponentOf (num * unitsPerOne / den))))
  simp only [roundUnbounded]
  generalize exponentOf (num * unitsPerOne / den) = exponent at *
  generalize roundHalfEven (num * unitsPerOne) (den * 2 ^ exponent) = steps at *
  have hunits : units (exponent * 2 ^ 52 + steps) = steps * 2 ^ exponent :=
    units_steps hle (by omega)
  have hcommon : (0 : ℚ) < den * unitsPerOne := by exact_mod_cast Nat.mul_pos hden unitsPerOne_pos
  have hstep : ((2 ^ exponent : Nat) / unitsPerOne : ℚ) =
      (den * 2 ^ exponent : Nat) / (den * unitsPerOne) := by
    have : (den : ℚ) ≠ 0 := by exact_mod_cast hden.ne'
    push_cast
    rw [mul_div_mul_left _ _ this]
  have hdist : 2 * |(num / den : ℚ) - scale (exponent * 2 ^ 52 + steps)| =
      2 * |((num * unitsPerOne : Nat) : ℚ) - steps * (den * 2 ^ exponent : Nat)| /
        (den * unitsPerOne) := by
    rw [sub_scale num hden, hunits, abs_div, abs_of_pos hcommon, mul_div_assoc]
    congr 3
    push_cast
    ring
  have hwithin : 2 * |(num / den : ℚ) - scale (exponent * 2 ^ 52 + steps)| ≤
      (2 ^ exponent : Nat) / unitsPerOne := by
    rw [hdist, hstep]
    exact div_le_div_of_nonneg_right hnear hcommon.le
  refine .of_step scale_strictMono hwithin ?_ ?_ ?_
  · rw [hdist, hstep, div_left_inj' hcommon.ne']
    exact fun h => even_pattern_iff.mpr (htie h)
  · exact scale_add_le_iff.mpr (units_add_step_le hle (by omega))
  · rcases hnormal with hzero | hmore | ⟨hsteps, hdown⟩
    · exact Or.inr fun other hlt => scale_add_le_iff.mpr (units_le_sub_step hle (Or.inl hzero) hlt)
    · exact Or.inr fun other hlt => scale_add_le_iff.mpr (units_le_sub_step hle (Or.inr hmore) hlt)
    · left
      rw [← sub_nonneg, sub_scale num hden, hunits]
      refine div_nonneg (sub_nonneg.mpr ?_) hcommon.le
      rw [Nat.mul_comm den, ← Nat.mul_assoc] at hdown
      exact_mod_cast hdown

end Binary64

end MachineTyping
