/-
# Decimals are rounded correctly

A bit pattern is read by its fields, sign, exponent and fraction (`Binary64.value`), and a pattern is
the correctly rounded one of a rational number (`Binary64.IsRounded`) if no finite number is nearer
and of two equally near ones it has the even significand; from halfway between the greatest finite
number and what would come next on it is infinity.  The fields say nothing of how the rounding is
done, and negative numbers count too.

The pattern that a decimal comes to is correctly rounded (`Binary64.isRounded_ofQuotient`), because
the fields read the scale on which it is the nearest place (`Binary64.value_eq_scale`,
`Binary64.even_significand_iff`).  It depends on the number alone and grows with it
(`Binary64.ofQuotient_mono`), however many zeros are written around the digits.
-/
import MachineTyping.Proofs.Numeral.Literal
import MachineTyping.Proofs.Numeral.Rounding

namespace MachineTyping

namespace Binary64

/-! ## 1. Fields and values -/

/-- The sign bit. -/
def isNegative (x : Binary64) : Bool := 2 ^ 63 ≤ x.bits.toNat

/-- The eleven bits of the exponent. -/
def exponentField (x : Binary64) : Nat := x.bits.toNat / 2 ^ 52 % 2 ^ 11

/-- The 52 bits of the fraction. -/
def fractionField (x : Binary64) : Nat := x.bits.toNat % 2 ^ 52

/-- The exponents of finite numbers are all but the greatest. -/
def IsFinite (x : Binary64) : Prop := x.exponentField < 2 ^ 11 - 1

/-- The fraction with its leading bit, which numbers of the least exponent do not have. -/
def significand (x : Binary64) : Nat :=
  if x.exponentField = 0 then x.fractionField else 2 ^ 52 + x.fractionField

/-- **The value of a finite number.** -/
def value (x : Binary64) : ℚ :=
  (if x.isNegative then -1 else 1) * x.significand * 2 ^ (max 1 (x.exponentField : ℤ) - 1075)

/-- Positive infinity. -/
def infinity : Binary64 := ⟨0x7FF0000000000000⟩

/-- **The number that `q` is correctly rounded to**: to the nearest one, ties going to the even
significand, or to infinity. -/
structure IsRounded (q : ℚ) (x : Binary64) : Prop where
  infinite : x = infinity ↔ 2 ^ 1024 - 2 ^ 970 ≤ q
  finite : q < 2 ^ 1024 - 2 ^ 970 → x.IsFinite
  nearest : q < 2 ^ 1024 - 2 ^ 970 → ∀ y : Binary64, y.IsFinite → |q - x.value| ≤ |q - y.value|
  even : q < 2 ^ 1024 - 2 ^ 970 → ∀ y : Binary64, y.IsFinite → y.value ≠ x.value →
    |q - x.value| = |q - y.value| → Even x.significand

/-! ## 2. Fields and places -/

variable {x y : Binary64}

theorem isFinite_iff : x.IsFinite ↔ x.magnitude < infinityBits := by
  rw [IsFinite, exponentField, magnitude, infinityBits]
  simp only [Nat.pow_eq]
  omega

theorem even_significand_iff : Even x.significand ↔ Even x.magnitude := by
  rw [significand, fractionField, magnitude, Nat.even_iff, Nat.even_iff]
  simp only [Nat.pow_eq]
  split <;> omega

theorem scale_nonneg (bits : Nat) : 0 ≤ scale bits :=
  div_nonneg (Nat.cast_nonneg _) (Nat.cast_nonneg _)

/-- **The value that the fields give is the place of the pattern on the scale**, with its sign. -/
theorem value_eq_scale (x : Binary64) :
    x.value = (if x.isNegative then -1 else 1) * scale x.magnitude := by
  have hexponent : x.magnitude / 2 ^ 52 = x.exponentField := by
    rw [exponentField, magnitude]
    simp only [Nat.pow_eq]
    omega
  have hfraction : x.magnitude % 2 ^ 52 = x.fractionField := by
    rw [fractionField, magnitude]
    simp only [Nat.pow_eq]
    omega
  -- the exponent of a unit, kept from being computed with
  obtain ⟨places, hplaces⟩ : ∃ places : ℕ, places = 1074 := ⟨1074, rfl⟩
  have hpower : max 1 (x.exponentField : ℤ) - 1075 = ((x.exponentField - 1 : ℕ) : ℤ) - places := by
    omega
  rw [value, scale, units, hexponent, hfraction, ← significand, hpower, zpow_sub₀ two_ne_zero,
    zpow_natCast, zpow_natCast, cast_unitsPerOne hplaces]
  push_cast
  ring

theorem value_eq_scale_or (x : Binary64) :
    x.value = scale x.magnitude ∨ x.value = -scale x.magnitude := by
  rw [value_eq_scale]
  split
  · exact Or.inr (neg_one_mul _)
  · exact Or.inl (one_mul _)

/-! ## 3. The pattern of a quotient -/

variable {num num' den den' : Nat}

/-- What rounding comes to is at most infinity. -/
theorem roundBits_le (num den : Nat) : roundBits num den ≤ infinityBits := Nat.min_le_right _ _

theorem toNat_ofQuotient (num den : Nat) : (ofQuotient num den).bits.toNat = roundBits num den := by
  have hinf : infinityBits < UInt64.size := by decide +kernel
  exact UInt64.toNat_ofNat_of_lt' (Nat.lt_of_le_of_lt (roundBits_le num den) hinf)

/-- The pattern of a quotient has no sign bit... -/
theorem isNegative_ofQuotient (num den : Nat) : (ofQuotient num den).isNegative = false := by
  have hle := roundBits_le num den
  have hinf : infinityBits < 2 ^ 63 := by decide +kernel
  rw [isNegative, toNat_ofQuotient]
  exact decide_eq_false (by omega)

theorem magnitude_ofQuotient (num den : Nat) :
    (ofQuotient num den).magnitude = roundBits num den := by
  have hinf : infinityBits < Nat.pow 2 63 := by decide +kernel
  rw [magnitude, toNat_ofQuotient, Nat.mod_eq_of_lt (Nat.lt_of_le_of_lt (roundBits_le num den) hinf)]

/-- ...and is that of a number. -/
theorem isNaN_ofQuotient (num den : Nat) : (ofQuotient num den).isNaN = false := by
  rw [isNaN, magnitude_ofQuotient]
  exact decide_eq_false (Nat.not_lt.mpr (roundBits_le num den))

theorem ofQuotient_eq_infinity_iff :
    ofQuotient num den = infinity ↔ infinityBits ≤ roundUnbounded num den := by
  have hinf : infinity.bits.toNat = infinityBits := by decide +kernel
  have hbits : ofQuotient num den = infinity ↔ roundBits num den = infinityBits := by
    rw [← toNat_ofQuotient, ← hinf, UInt64.toNat_inj]
    exact ⟨fun h => by rw [h], fun h => congrArg Binary64.mk h⟩
  rw [hbits, roundBits_eq]
  exact min_eq_right_iff

/-- The middle between the greatest finite number and the place after it. -/
theorem scale_add_scale_infinity :
    scale (infinityBits - 1) + scale (infinityBits - 1 + 1) = 2 * (2 ^ 1024 - 2 ^ 970) := by
  have hlast : infinityBits - 1 = 2045 * 2 ^ 52 + (2 ^ 53 - 1) := by decide +kernel
  have hnext : 2045 * 2 ^ 52 + (2 ^ 53 - 1) + 1 = 2045 * 2 ^ 52 + 2 ^ 53 := by omega
  have hone : (unitsPerOne : ℚ) ≠ 0 := by exact_mod_cast unitsPerOne_pos.ne'
  have hgreat : (2 : ℚ) ^ 2045 = 2 * 2 ^ 970 * unitsPerOne := by
    rw [cast_unitsPerOne rfl, ← pow_succ', ← pow_add]
  have hover : (2 : ℚ) ^ 1024 = 2 ^ 54 * 2 ^ 970 := by rw [← pow_add]
  rw [hlast, hnext, scale, scale, units_steps (by omega) (by omega),
    units_steps (by omega) (by omega), hover]
  rw [Nat.cast_mul, Nat.cast_mul, Nat.cast_pow 2 2045, Nat.cast_ofNat, hgreat]
  generalize (2 : ℚ) ^ 970 = half
  field_simp
  norm_num

/-- What is rounded to a finite number is what is below that middle. -/
theorem roundUnbounded_lt_iff (hden : 0 < den) :
    roundUnbounded num den < infinityBits ↔ (num / den : ℚ) < 2 ^ 1024 - 2 ^ 970 := by
  have hodd : ¬ Even (infinityBits - 1) := by decide +kernel
  have hpos : 0 < infinityBits := by decide +kernel
  have hle := (isNearestEven_roundUnbounded num hden).le_iff scale_strictMono hodd
  rw [scale_add_scale_infinity, mul_lt_mul_iff_right₀ two_pos] at hle
  rw [← hle]
  omega

/-! ## 4. Correct rounding -/

theorem scale_zero : scale 0 = 0 := by
  rw [scale, units]
  simp

/-- A negative number is no nearer to what is rounded than its mirror image, and as near only if both
are zero. -/
theorem abs_sub_le_mirrored {q place : ℚ} (hq : 0 ≤ q) (hplace : 0 ≤ place) :
    |q - place| ≤ |q - -place| ∧ (|q - place| = |q - -place| → q = 0 ∨ place = 0) := by
  rw [abs_of_nonneg (by linarith : 0 ≤ q - -place)]
  refine ⟨abs_le.mpr ⟨by linarith, by linarith⟩, fun heq => ?_⟩
  rcases abs_cases (q - place) with ⟨ha, -⟩ | ⟨ha, -⟩
  · exact Or.inr (by linarith)
  · exact Or.inl (by linarith)

/-- **The pattern of a quotient is the correctly rounded one.** -/
theorem isRounded_ofQuotient (num : Nat) (hden : 0 < den) :
    IsRounded (num / den) (ofQuotient num den) := by
  have hround := isNearestEven_roundUnbounded num hden
  have hquot : (0 : ℚ) ≤ num / den := by positivity
  -- a finite number stands for its place, which has no sign
  have hplace : (num / den : ℚ) < 2 ^ 1024 - 2 ^ 970 →
      roundBits num den = roundUnbounded num den ∧
        (ofQuotient num den).value = scale (roundUnbounded num den) := by
    intro hq
    have hbits : roundBits num den = roundUnbounded num den := by
      rw [roundBits_eq]
      exact min_eq_left ((roundUnbounded_lt_iff hden).mpr hq).le
    refine ⟨hbits, ?_⟩
    rw [value_eq_scale, isNegative_ofQuotient, magnitude_ofQuotient, hbits]
    exact one_mul _
  refine ⟨?infinite, ?finite, ?nearest, ?even⟩
  case infinite =>
    rw [ofQuotient_eq_infinity_iff, ← not_lt, roundUnbounded_lt_iff hden, not_lt]
  case finite =>
    intro hq
    rw [isFinite_iff, magnitude_ofQuotient, (hplace hq).1]
    exact (roundUnbounded_lt_iff hden).mpr hq
  case nearest =>
    intro hq y hy
    have hnear := hround.nearest y.magnitude
    rw [(hplace hq).2]
    rcases value_eq_scale_or y with hv | hv
    · rwa [hv]
    · rw [hv]
      exact hnear.trans (abs_sub_le_mirrored hquot (scale_nonneg _)).1
  case even =>
    intro hq y hy hne htie
    have hnear := hround.nearest y.magnitude
    obtain ⟨hmirror, hboth⟩ := abs_sub_le_mirrored hquot (scale_nonneg y.magnitude)
    rw [(hplace hq).2] at hne htie
    rw [even_significand_iff, magnitude_ofQuotient, (hplace hq).1]
    by_cases hsame : y.magnitude = roundUnbounded num den
    · -- the mirror image of the place would be as near, but it is no other number
      rcases value_eq_scale_or y with hv | hv
      · exact absurd (hv.trans (congrArg scale hsame)) hne
      · rw [hv, ← hsame] at htie
        have hzero : scale y.magnitude = 0 := by
          rcases hboth htie with hq0 | hp0
          · have hleast := hround.nearest 0
            rw [← hsame, scale_zero, hq0, sub_zero, abs_zero, zero_sub, abs_neg] at hleast
            exact abs_nonpos_iff.mp hleast
          · exact hp0
        exact absurd (by rw [hv, ← hsame, hzero, neg_zero]) hne
    · refine hround.even _ hsame ?_
      rcases value_eq_scale_or y with hv | hv
      · rwa [hv] at htie
      · rw [hv] at htie
        exact le_antisymm hnear (hmirror.trans htie.ge)

/-- **The pattern grows with the number.** -/
theorem ofQuotient_mono (hden : 0 < den) (hden' : 0 < den')
    (h : (num / den : ℚ) ≤ num' / den') : (ofQuotient num den).bits ≤ (ofQuotient num' den').bits := by
  rw [UInt64.le_iff_toNat_le, toNat_ofQuotient, toNat_ofQuotient, roundBits_eq, roundBits_eq]
  exact min_le_min_right _ ((isNearestEven_roundUnbounded num hden).mono scale_strictMono
    (isNearestEven_roundUnbounded num' hden') h)

/-- The pattern depends on the number only. -/
theorem ofQuotient_congr (hden : 0 < den) (hden' : 0 < den')
    (h : (num / den : ℚ) = num' / den') : ofQuotient num den = ofQuotient num' den' :=
  congrArg Binary64.mk (UInt64.le_antisymm (ofQuotient_mono hden hden' h.le)
    (ofQuotient_mono hden' hden h.ge))

end Binary64

/-! ## 5. Decimal literals -/

section Decimals

variable {whole whole' : Option String} {fraction fraction' : String} {q q' : ℚ} {x x' : Binary64}

/-- A decimal is read as a quotient that is its value. -/
theorem IsDecimal.exists_quotient (h : IsDecimal whole fraction q) :
    ∃ num den : Nat, 0 < den ∧ q = num / den ∧
      Binary64.ofDecimal? (whole.getD "") fraction = some (.ofQuotient num den) := by
  obtain ⟨digits, places, hne, hw, hf, rfl⟩ := h
  refine ⟨Digits.value (digits ++ places), 10 ^ places.length, by positivity, by push_cast; rfl, ?_⟩
  exact Binary64.ofDecimal?_eq_some_iff.mpr ⟨digits, places, hne, hw, hf, rfl⟩

theorem exists_isDecimal (h : Binary64.ofDecimal? (whole.getD "") fraction = some x) :
    ∃ q, IsDecimal whole fraction q := by
  obtain ⟨digits, places, hne, hw, hf, -⟩ := Binary64.ofDecimal?_eq_some_iff.mp h
  exact ⟨_, digits, places, hne, hw, hf, rfl⟩

/-- Decimals of one value come to one pattern. -/
theorem IsDecimal.ofDecimal?_eq (h : IsDecimal whole fraction q)
    (h' : IsDecimal whole' fraction' q) :
    Binary64.ofDecimal? (whole.getD "") fraction =
      Binary64.ofDecimal? (whole'.getD "") fraction' := by
  obtain ⟨num, den, hden, rfl, hx⟩ := h.exists_quotient
  obtain ⟨num', den', hden', hq, hx'⟩ := h'.exists_quotient
  rw [hx, hx', Binary64.ofQuotient_congr hden hden' hq]

theorem IsDecimal.bits_le (h : IsDecimal whole fraction q) (h' : IsDecimal whole' fraction' q')
    (hle : q ≤ q') (hx : Binary64.ofDecimal? (whole.getD "") fraction = some x)
    (hx' : Binary64.ofDecimal? (whole'.getD "") fraction' = some x') : x.bits ≤ x'.bits := by
  obtain ⟨num, den, hden, rfl, hy⟩ := h.exists_quotient
  obtain ⟨num', den', hden', rfl, hy'⟩ := h'.exists_quotient
  obtain rfl := Option.some.inj (hx.symm.trans hy)
  obtain rfl := Option.some.inj (hx'.symm.trans hy')
  exact Binary64.ofQuotient_mono hden hden' hle

/-- Zeros before the digits of a decimal and after them do not change its value. -/
theorem IsDecimal.zeros (h : IsDecimal whole fraction q) (leading trailing : Nat) :
    IsDecimal (some (Digits.text (List.replicate leading 0) ++ whole.getD ""))
      (fraction ++ Digits.text (List.replicate trailing 0)) q := by
  obtain ⟨digits, places, hne, hw, rfl, rfl⟩ := h
  refine ⟨List.replicate leading 0 ++ digits, places ++ List.replicate trailing 0, ?_, ?_, ?_, ?_⟩
  · simp [hne]
  · rw [Option.getD_some, hw, Digits.text_append]
  · rw [Digits.text_append]
  · rw [List.append_assoc, Digits.value_zeros_append, ← List.append_assoc,
      Digits.value_append (digits ++ places), Digits.value_zeros, List.length_append,
      List.length_replicate, pow_add]
    push_cast
    rw [add_zero, mul_div_mul_right _ _ (by positivity)]

/-- No whole part is as good as the digit zero. -/
theorem isDecimal_zero_iff : IsDecimal (some "0") fraction q ↔ IsDecimal none fraction q := by
  have hzero : "0" = Digits.text [0] := rfl
  constructor
  · rintro ⟨digits, places, hne, hw, hf, rfl⟩
    obtain rfl := Digits.text_inj.mp (hzero.symm.trans hw)
    have hvalue : Digits.value ([0] ++ places) = places.value := Digits.value_zeros_append 1 places
    exact ⟨[], places, hne, rfl, hf, by rw [hvalue]; rfl⟩
  · intro h
    have hpadded := h.zeros 1 0
    rwa [show fraction ++ Digits.text (List.replicate 0 0) = fraction from String.append_empty]
      at hpadded

end Decimals

namespace Context

variable {ctx ctx' : Context} {span : Span} {whole whole' : Option String}
  {fraction fraction' : String} {q : ℚ} {x : Binary64} {t : Typed}

/-- A decimal literal is accepted if its text is a decimal, and its node holds a correctly rounded
number. -/
theorem Checks.isRounded (h : ctx.Checks (.node span (.float (.decimal whole fraction))) t) :
    ∃ q x, IsDecimal whole fraction q ∧ t = .node span .float (.float x) ∧
      x.IsRounded q ∧ x.isNaN = false ∧ x.isNegative = false := by
  obtain ⟨x, hx, rfl⟩ := checks_decimal_iff.mp h
  obtain ⟨q, hq⟩ := exists_isDecimal hx
  obtain ⟨num, den, hden, rfl, hx'⟩ := hq.exists_quotient
  obtain rfl := Option.some.inj (hx.symm.trans hx')
  exact ⟨_, _, hq, rfl, Binary64.isRounded_ofQuotient num hden,
    Binary64.isNaN_ofQuotient num den, Binary64.isNegative_ofQuotient num den⟩

theorem checks_decimal_congr
    (h : Binary64.ofDecimal? (whole.getD "") fraction =
      Binary64.ofDecimal? (whole'.getD "") fraction') :
    ctx.Checks (.node span (.float (.decimal whole fraction))) t ↔
      ctx'.Checks (.node span (.float (.decimal whole' fraction'))) t := by
  rw [checks_decimal_iff, checks_decimal_iff, h]

/-- The whole part may be missing, empty or zero, which makes no difference. -/
theorem checks_decimal_whole_iff :
    ctx.Checks (.node span (.float (.decimal (some "0") fraction))) t ↔
      ctx.Checks (.node span (.float (.decimal none fraction))) t := by
  constructor
  · intro h
    obtain ⟨q, x, hq, -⟩ := h.isRounded
    exact (checks_decimal_congr (hq.ofDecimal?_eq (isDecimal_zero_iff.mp hq))).mp h
  · intro h
    obtain ⟨q, x, hq, -⟩ := h.isRounded
    exact (checks_decimal_congr (hq.ofDecimal?_eq (isDecimal_zero_iff.mpr hq))).mp h

/-- **Decimal literals are correctly rounded.**

Every accepted one, of any length, holds the pattern of the number that is nearest to its value, ties
going to the even significand, or of infinity from halfway beyond the greatest number on; and that
pattern is the same for all decimals of one value, grows with the value, is that of a number and has
no sign.  So zeros in front of the digits and after them make no difference, nor whether the whole
part is missing, empty or zero. -/
theorem decimals_correctly_rounded (ctx ctx' : Context) (span : Span) :
    (∀ whole fraction t, ctx.Checks (.node span (.float (.decimal whole fraction))) t →
      ∃ q x, (∀ value, IsDecimal whole fraction value ↔ value = q) ∧
        t = .node span .float (.float x) ∧ x.IsRounded q ∧ x.isNaN = false ∧
        x.isNegative = false) ∧
    (∀ whole fraction whole' fraction' q t, IsDecimal whole fraction q →
      IsDecimal whole' fraction' q →
      (ctx.Checks (.node span (.float (.decimal whole fraction))) t ↔
        ctx'.Checks (.node span (.float (.decimal whole' fraction'))) t)) ∧
    (∀ whole fraction whole' fraction' q q' x x', IsDecimal whole fraction q →
      IsDecimal whole' fraction' q' → q ≤ q' →
      ctx.Checks (.node span (.float (.decimal whole fraction))) (.node span .float (.float x)) →
      ctx'.Checks (.node span (.float (.decimal whole' fraction')))
        (.node span .float (.float x')) → x.bits ≤ x'.bits) ∧
    (∀ whole fraction t leading trailing,
      ctx.Checks (.node span (.float (.decimal whole fraction))) t →
      ctx.Checks (.node span (.float (.decimal
        (some (Digits.text (List.replicate leading 0) ++ whole.getD ""))
        (fraction ++ Digits.text (List.replicate trailing 0))))) t) ∧
    ∀ fraction t,
      (ctx.Checks (.node span (.float (.decimal (some "") fraction))) t ↔
        ctx.Checks (.node span (.float (.decimal none fraction))) t) ∧
      (ctx.Checks (.node span (.float (.decimal (some "0") fraction))) t ↔
        ctx.Checks (.node span (.float (.decimal none fraction))) t) := by
  refine ⟨?rounded, ?value, ?order, ?zeros, ?whole⟩
  case rounded =>
    intro whole fraction t h
    obtain ⟨q, x, hq, ht, hx⟩ := h.isRounded
    exact ⟨q, x, fun value => ⟨fun hvalue => hvalue.unique hq, fun heq => heq ▸ hq⟩, ht, hx⟩
  case value =>
    intro whole fraction whole' fraction' q t hq hq'
    exact checks_decimal_congr (hq.ofDecimal?_eq hq')
  case order =>
    intro whole fraction whole' fraction' q q' x x' hq hq' hle h h'
    obtain ⟨y, hy, ht⟩ := checks_decimal_iff.mp h
    obtain ⟨y', hy', ht'⟩ := checks_decimal_iff.mp h'
    cases ht
    cases ht'
    exact hq.bits_le hq' hle hy hy'
  case zeros =>
    intro whole fraction t leading trailing h
    obtain ⟨q, x, hq, -⟩ := h.isRounded
    exact (checks_decimal_congr (hq.ofDecimal?_eq (hq.zeros leading trailing))).mp h
  case whole =>
    intro fraction t
    exact ⟨checks_decimal_congr rfl, checks_decimal_whole_iff⟩

/-- `9007199254740993.0` is as far from the number below it as from the one above, and comes to the one
below, which is even; with zeros around it, it does so too.  A five after 323 zeros, with no whole
part or with a zero, comes to the least number above zero. -/
theorem decimals_correctly_rounded_tie_and_least :
    let ctx : Context := ⟨.initial, none⟩
    let literal (whole : Option String) (fraction : String) : Expr :=
      .node ⟨0, 18⟩ (.float (.decimal whole fraction))
    let typed (x : Binary64) : Typed := .node ⟨0, 18⟩ .float (.float x)
    let below : Binary64 := ⟨0x4340000000000000⟩
    let above : Binary64 := ⟨0x4340000000000001⟩
    let least : Digits := List.replicate 323 0 ++ [5]
    let tie : ℚ := 9007199254740993
    IsDecimal (some "9007199254740993") "0" tie ∧
    ctx.Checks (literal (some "9007199254740993") "0") (typed below) ∧
    below.IsRounded tie ∧ |tie - below.value| = |tie - above.value| ∧
    ctx.Checks (literal (some "09007199254740993") "00") (typed below) ∧
    ctx.Checks (literal (some "009007199254740993") "0000") (typed below) ∧
    ctx.Checks (literal none least.text) (typed ⟨1⟩) ∧
    Binary64.IsRounded (5 / 10 ^ 324) ⟨1⟩ ∧
    ctx.Checks (literal (some "0") least.text) (typed ⟨1⟩) ∧
    (Binary64.mk 1).bits ≤ below.bits := by
  intro ctx literal typed below above least tie
  obtain ⟨hround, hvalue, horder, hzeros, hwhole⟩ := decimals_correctly_rounded ctx ctx ⟨0, 18⟩
  have hrounded : ∀ whole fraction q x, IsDecimal whole fraction q →
      ctx.Checks (literal whole fraction) (typed x) → x.IsRounded q := by
    intro whole fraction q x hq h
    obtain ⟨q', x', hq', hx', hr, -⟩ := hround whole fraction _ h
    cases hx'
    rwa [(hq' q).mp hq]
  -- the tie
  have htie : IsDecimal (some "9007199254740993") "0" tie := by
    have hdigits : Digits.value ([9, 0, 0, 7, 1, 9, 9, 2, 5, 4, 7, 4, 0, 9, 9, 3] ++ [0]) =
        90071992547409930 := by decide
    refine ⟨[9, 0, 0, 7, 1, 9, 9, 2, 5, 4, 7, 4, 0, 9, 9, 3], [0], by decide, by decide,
      by decide, ?_⟩
    rw [hdigits]
    norm_num [tie]
  have hc : ctx.Checks (literal (some "9007199254740993") "0") (typed below) :=
    checks_decimal_iff.mpr ⟨below, by decide +kernel, rfl⟩
  have hbelow : below.IsRounded tie := hrounded _ _ _ _ htie hc
  have hunits : ∀ x : Binary64, x.isNegative = false → x.exponentField = 1076 →
      x.value = x.significand * 2 := by
    intro x hsign hexponent
    rw [Binary64.value, hsign, hexponent]
    norm_num
  have hdistance : |tie - below.value| = |tie - above.value| := by
    have hsignificand : below.significand = 2 ^ 52 ∧ above.significand = 2 ^ 52 + 1 := by decide
    rw [hunits below (by decide) (by decide), hunits above (by decide) (by decide),
      hsignificand.1, hsignificand.2]
    norm_num [tie]
  -- the least number
  have hne : least ≠ [] := List.concat_ne_nil _ _
  have hdigits : Digits.value ([] ++ least) = 5 := Digits.value_zeros_append 323 [5]
  have hplaces : least.length = 324 := by
    rw [List.length_append, List.length_replicate, List.length_singleton]
  have hleast : IsDecimal none least.text (5 / 10 ^ 324) := by
    refine ⟨[], least, hne, rfl, rfl, ?_⟩
    rw [hdigits, hplaces, Nat.cast_ofNat]
  have hread : Binary64.ofDecimal? "" least.text = some ⟨1⟩ := by
    refine Binary64.ofDecimal?_eq_some_iff.mpr ⟨[], least, hne, rfl, rfl, ?_⟩
    rw [hdigits, hplaces]
    decide +kernel
  have hc' : ctx.Checks (literal none least.text) (typed ⟨1⟩) :=
    checks_decimal_iff.mpr ⟨⟨1⟩, hread, rfl⟩
  have hle : (5 / 10 ^ 324 : ℚ) ≤ tie :=
    (div_le_self (by norm_num) (one_le_pow₀ (by norm_num))).trans (by norm_num [tie])
  exact ⟨htie, hc, hbelow, hdistance, (hvalue _ _ _ _ _ _ htie (htie.zeros 1 1)).mp hc,
    hzeros _ _ _ 2 3 hc, hc', hrounded _ _ _ _ hleast hc', (hwhole _ _).2.mpr hc',
    horder _ _ _ _ _ _ _ _ hleast htie hle hc' hc⟩

end Context

end MachineTyping
