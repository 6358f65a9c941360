import Mathlib.Algebra.Order.Field.Power
import Mathlib.Tactic.FieldSimp
import TableStore.Binary64.Shortest
import TableStore.Proofs.Binary64.Nearest

/-!
Numbers written in decimal digits. Main statements: seventeen significant digits read back as the
number that they were rounded from, and so do the fewest that are chosen.
-/

namespace TableStore

/-- A number between two powers of ten has as many digits as the larger one has zeros. -/
theorem digitCount_eq_of_lt {value count : Nat} (low : 10 ^ count ≤ value)
    (high : value < 10 ^ (count + 1)) : digitCount value = count + 1 := by
  -- The number of digits is one more than the logarithm, which the two powers enclose.
  rw [digitCount_eq_log, (Nat.log_eq_iff (.inr ⟨by decide, ?_⟩)).2 ⟨low, high⟩]
  exact (Nat.pos_of_ne_zero (by positivity) |>.trans_le low).ne'

/-- A quotient is off the rounded one by half at most. -/
theorem abs_roundHalfEven_sub_le (numerator : Nat) {denominator : Nat} (positive : 0 < denominator) :
    |(roundHalfEven numerator denominator : ℚ) - numerator / denominator| ≤ 1 / 2 := by
  -- The bounds are those on twice the number, divided by the divisor.
  have divisor : (0 : ℚ) < denominator := Nat.cast_pos.2 positive
  obtain ⟨above, below⟩ := roundHalfEven_near numerator positive
  have above : (2 * numerator : ℚ) ≤ (2 * roundHalfEven numerator denominator + 1) * denominator := by
    exact_mod_cast above
  have below : (2 * roundHalfEven numerator denominator * denominator : ℚ) ≤
      2 * numerator + denominator := by exact_mod_cast below
  have quotient : (numerator : ℚ) = numerator / denominator * denominator :=
    (div_mul_cancel₀ _ divisor.ne').symm
  -- The quotient becomes a name, so that the bounds are linear in it.
  generalize (numerator : ℚ) / denominator = exact at *
  rw [quotient] at above below
  rw [abs_le]
  constructor
  · nlinarith
  · nlinarith

/-- A whole number that a quotient reaches in fractions is no more than the rounded quotient. -/
theorem le_roundHalfEven_of_le_div {numerator denominator bound : Nat} (positive : 0 < denominator)
    (reached : (bound : ℚ) ≤ numerator / denominator) :
    bound ≤ roundHalfEven numerator denominator := by
  -- Multiplied by the divisor, the bound is one of whole numbers.
  rw [le_div_iff₀ (Nat.cast_pos.2 positive)] at reached
  exact le_roundHalfEven positive (by exact_mod_cast reached)

/--
A whole number that a quotient does not exceed in fractions is no less than the rounded quotient.
-/
theorem roundHalfEven_le_of_div_le {numerator denominator bound : Nat} (positive : 0 < denominator)
    (bounded : (numerator / denominator : ℚ) ≤ bound) :
    roundHalfEven numerator denominator ≤ bound := by
  -- Multiplied by the divisor, the bound is one of whole numbers.
  rw [div_le_iff₀ (Nat.cast_pos.2 positive)] at bounded
  exact roundHalfEven_le positive (by exact_mod_cast bounded)

/-- A quotient that is scaled by a power of ten is a quotient of whole numbers again. -/
theorem exists_scaled {α : Type} (round : Nat → Nat → α) (numerator : Nat) {denominator : Nat}
    (positive : 0 < denominator) (power : Int) :
    ∃ scaled divisor : Nat, 0 < divisor ∧
      (scaled / divisor : ℚ) = numerator / denominator * 10 ^ power ∧
      (if 0 ≤ power then round (numerator * Nat.pow 10 power.toNat) denominator
        else round numerator (denominator * Nat.pow 10 (-power).toNat)) = round scaled divisor := by
  -- A power of ten goes into the numerator or, if it is a fraction, into the divisor.
  split
  · next whole =>
    obtain ⟨places, rfl⟩ := Int.eq_ofNat_of_zero_le whole
    refine ⟨_, _, positive, ?_, rfl⟩
    simp only [Int.toNat_natCast, Nat.pow_eq, Nat.cast_mul, Nat.cast_pow, Nat.cast_ofNat,
      zpow_natCast]
    ring
  · next fractional =>
    obtain ⟨places, rfl⟩ : ∃ places : Nat, power = -places := ⟨(-power).toNat, by omega⟩
    refine ⟨_, _, Nat.mul_pos positive (Nat.pow_pos (by decide)), ?_, rfl⟩
    simp only [neg_neg, Int.toNat_natCast, Nat.cast_mul, Nat.cast_pow, Nat.cast_ofNat,
      zpow_neg, zpow_natCast]
    field_simp

namespace Binary64

/-- The leading power is that of the highest digit of a quotient. -/
theorem leadingPower_bounds {numerator denominator : Nat} (positive : 0 < numerator)
    (positiveBelow : 0 < denominator) :
    (10 : ℚ) ^ leadingPower numerator denominator ≤ numerator / denominator ∧
      (numerator / denominator : ℚ) < 10 ^ (leadingPower numerator denominator + 1) := by
  have divisor : (0 : ℚ) < denominator := Nat.cast_pos.2 positiveBelow
  rw [leadingPower]
  split
  · next large =>
    -- The digits of the whole part tell the power.
    have whole : numerator / denominator ≠ 0 := (Nat.div_pos large positiveBelow).ne'
    have low := Nat.pow_log_le_self 10 whole
    have high := Nat.lt_pow_succ_log_self (by decide : 1 < 10) (numerator / denominator)
    rw [digitCount_eq_log, Nat.cast_succ, Int.add_sub_cancel]
    generalize Nat.log 10 (numerator / denominator) = power at *
    rw [Nat.le_div_iff_mul_le positiveBelow] at low
    rw [Nat.div_lt_iff_lt_mul positiveBelow] at high
    rw [le_div_iff₀ divisor, div_lt_iff₀ divisor, ← Nat.cast_succ, zpow_natCast, zpow_natCast]
    exact ⟨by exact_mod_cast low, by exact_mod_cast high⟩
  · next small =>
    -- So do those of the whole part of the inverse.
    have whole : (denominator - 1) / numerator ≠ 0 := (Nat.div_pos (by omega) positive).ne'
    have low := Nat.pow_log_le_self 10 whole
    have high := Nat.lt_pow_succ_log_self (by decide : 1 < 10) ((denominator - 1) / numerator)
    rw [digitCount_eq_log, Nat.cast_succ]
    generalize Nat.log 10 ((denominator - 1) / numerator) = power at *
    rw [Nat.le_div_iff_mul_le positive] at low
    rw [Nat.div_lt_iff_lt_mul positive, Nat.succ_eq_add_one] at high
    have upper : -((power : Int) + 1) + 1 = -power := by omega
    rw [upper, le_div_iff₀ divisor, div_lt_iff₀ divisor, ← Nat.cast_succ, zpow_neg, zpow_neg,
      zpow_natCast, zpow_natCast, inv_mul_le_iff₀ (by positivity), ← div_eq_inv_mul,
      lt_div_iff₀ (by positivity)]
    have below : denominator ≤ 10 ^ (power + 1) * numerator := by omega
    have above : numerator * 10 ^ power < denominator := by
      rw [Nat.mul_comm]
      omega
    exact ⟨by exact_mod_cast below, by exact_mod_cast above⟩

variable {numerator denominator : Nat} {power : Int}

/-- Rounded to a place, a quotient is off by half a unit of it at most. -/
theorem exists_rounded (places : Nat) (positive : 0 < denominator)
    (low : (10 : ℚ) ^ power ≤ numerator / denominator)
    (high : (numerator / denominator : ℚ) < 10 ^ (power + 1)) :
    ∃ digits, (if 0 ≤ (places - power : Int)
        then roundHalfEven (numerator * Nat.pow 10 (places - power : Int).toNat) denominator
        else roundHalfEven numerator (denominator * Nat.pow 10 (-(places - power : Int)).toNat)) =
          digits ∧
      10 ^ places ≤ digits ∧ digits ≤ 10 ^ (places + 1) ∧
      |digits * 10 ^ (power - places : Int) - (numerator / denominator : ℚ)| ≤
        10 ^ (power - places : Int) / 2 := by
  obtain ⟨scaled, divisor, positiveDivisor, value, rounded⟩ :=
    exists_scaled roundHalfEven numerator positive (places - power)
  have ten : (10 : ℚ) ≠ 0 := by norm_num
  refine ⟨_, rounded, ?_, ?_, ?_⟩
  · refine le_roundHalfEven_of_le_div positiveDivisor ?_
    rw [Nat.cast_pow, Nat.cast_ofNat, value, ← zpow_natCast, ← add_sub_cancel power (places : Int),
      zpow_add₀ ten, add_sub_cancel]
    exact mul_le_mul_of_nonneg_right low (by positivity)
  · refine roundHalfEven_le_of_div_le positiveDivisor ?_
    rw [Nat.cast_pow, Nat.cast_ofNat, value, ← zpow_natCast, Nat.cast_succ,
      ← add_sub_cancel power (places : Int), add_right_comm, zpow_add₀ ten (power + 1),
      add_sub_cancel]
    exact mul_le_mul_of_nonneg_right high.le (by positivity)
  · -- The quotient is scaled back by what it was scaled by.
    have unit : (10 : ℚ) ^ (places - power : Int) * 10 ^ (power - places : Int) = 1 := by
      rw [← zpow_add₀ ten, sub_add_sub_cancel', sub_self, zpow_zero]
    have exact : (numerator / denominator : ℚ) = scaled / divisor * 10 ^ (power - places : Int) := by
      rw [value, mul_assoc, unit, mul_one]
    have positiveUnit : (0 : ℚ) < 10 ^ (power - places : Int) := by positivity
    have near := mul_le_mul_of_nonneg_right (abs_roundHalfEven_sub_le scaled positiveDivisor)
      positiveUnit.le
    rw [exact, ← sub_mul, abs_mul, abs_of_pos positiveUnit]
    linarith

/-- So many digits are near to an exact value, as the power of the first tells. -/
structure Significant (exact : ℚ) (power : Int) (count : Nat) (digits : Nat × Int) : Prop where
  low : 10 ^ (count - 1) ≤ digits.1
  high : digits.1 < 10 ^ count
  place : digits.2 = power ∨ digits.2 = power + 1
  close : |digits.1 * 10 ^ (digits.2 - count + 1) - exact| ≤ 10 ^ (power - count + 1) / 2

/-- A quotient is rounded to as many significant digits as are asked for. -/
theorem significantDigits_spec {count : Nat} (positive : 0 < denominator) (asked : count ≠ 0)
    (low : (10 : ℚ) ^ power ≤ numerator / denominator)
    (high : (numerator / denominator : ℚ) < 10 ^ (power + 1)) :
    Significant (numerator / denominator) power count
      (significantDigits numerator denominator power count) := by
  obtain ⟨places, rfl⟩ := Nat.exists_eq_succ_of_ne_zero asked
  obtain ⟨digits, rounded, least, most, close⟩ := exists_rounded places positive low high
  have first : ((places + 1 : ℕ) : Int) - 1 - power = places - power := by
    push_cast
    ring
  have last : power - ((places + 1 : ℕ) : Int) + 1 = power - places := by
    push_cast
    ring
  rw [significantDigits]
  simp only [Nat.succ_eq_add_one, first, rounded]
  split
  · next carried =>
    -- A one is left, and the power is larger.
    have next : power + 1 - ((places + 1 : ℕ) : Int) + 1 = power - places + 1 := by
      push_cast
      ring
    have same : ((Nat.pow 10 places : ℕ) : ℚ) * 10 ^ (power + 1 - ((places + 1 : ℕ) : Int) + 1) =
        digits * 10 ^ (power - places : Int) := by
      rw [carried, next, zpow_add₀ (by norm_num), Nat.pow_eq, Nat.pow_eq, pow_succ]
      push_cast
      ring
    refine ⟨le_rfl, Nat.pow_lt_pow_right (by decide) (Nat.lt_succ_self places), .inr rfl, ?_⟩
    rw [last]
    exact same ▸ close
  · next other => exact ⟨least, lt_of_le_of_ne most other, .inl rfl, last ▸ close⟩

/-! ## Decimals that are read -/

/-- Digits that are neither too large nor too small are rounded as the quotient that they denote. -/
theorem exists_nearestDecimal {digits : Nat} {exponent : Int} (nonzero : digits ≠ 0)
    (low : -330 ≤ exponent + digitCount digits) (high : exponent + digitCount digits ≤ 310) :
    ∃ scaled divisor : Nat, 0 < divisor ∧ (scaled / divisor : ℚ) = digits * 10 ^ exponent ∧
      nearestDecimal digits exponent = nearest scaled divisor := by
  -- The digits are a quotient by one, which the power of ten scales.
  obtain ⟨scaled, divisor, positive, value, rounded⟩ :=
    exists_scaled nearest digits Nat.one_pos exponent
  rw [Nat.cast_one, div_one] at value
  rw [Nat.one_mul] at rounded
  refine ⟨scaled, divisor, positive, value, ?_⟩
  -- None of the three extreme cases applies.
  rw [nearestDecimal, if_neg nonzero, if_neg (Int.not_lt.2 high), if_neg (Int.not_lt.2 low)]
  exact rounded

/-- A zero behind the digits moves them up, which a smaller exponent makes up for. -/
theorem nearestDecimal_mul_ten (digits : Nat) (exponent : Int) :
    nearestDecimal (digits * 10) (exponent - 1) = nearestDecimal digits exponent := by
  rcases Nat.eq_zero_or_pos digits with rfl | positive
  · simp [nearestDecimal]
  have longer : digitCount (digits * 10) = digitCount digits + 1 := by
    rw [digitCount_eq_log, digitCount_eq_log, Nat.log_mul_base (by decide) positive.ne']
  have width : exponent - 1 + (digitCount (digits * 10) : Int) = exponent + digitCount digits := by
    omega
  by_cases inside : -330 ≤ exponent + digitCount digits ∧ exponent + digitCount digits ≤ 310
  · obtain ⟨scaled, divisor, positiveDivisor, value, rounded⟩ :=
      exists_nearestDecimal positive.ne' inside.1 inside.2
    obtain ⟨other, divisorOther, positiveOther, valueOther, roundedOther⟩ :=
      @exists_nearestDecimal (digits * 10) (exponent - 1) (by omega) (by omega) (by omega)
    rw [rounded, roundedOther]
    refine nearest_congr positiveOther positiveDivisor ?_
    have ten : (10 : ℚ) ≠ 0 := by norm_num
    rw [value, valueOther, zpow_sub₀ ten]
    push_cast
    field_simp
  · -- Beyond the range of numbers nothing but the place of the first digit counts.
    have nonzero : digits * 10 ≠ 0 := by omega
    rw [nearestDecimal, nearestDecimal, width, if_neg positive.ne', if_neg nonzero]
    by_cases large : 310 < exponent + (digitCount digits : Int)
    · rw [if_pos large, if_pos large]
    · have small : exponent + (digitCount digits : Int) < -330 := by omega
      rw [if_neg large, if_neg large, if_pos small, if_pos small]

/-! ## Seventeen digits -/

variable {magnitude : Nat}

/-- No number is as large as ten to the power of 309. -/
theorem unitsOf_lt (finite : magnitude < infiniteMagnitude) :
    unitsOf magnitude < 10 ^ (308 + 1) * unitsPerOne := by
  -- The infinities stand where two to the power of 1024 would.
  obtain ⟨shift, isShift⟩ : ∃ shift, shift = 972 := ⟨_, rfl⟩
  have fields : infiniteMagnitude = (1075 + shift) * exponentStep + 0 := by
    rw [isShift]
    decide
  have bound : exponentStep * Nat.pow 2 shift ≤ 10 ^ (308 + 1) := by
    rw [isShift]
    decide +kernel
  have less := unitsOf_strictMono finite
  rw [fields, unitsOf_whole shift (by decide), Nat.add_zero] at less
  exact less.trans_le (Nat.mul_le_mul_right unitsPerOne bound)

/-- The first digit of a number other than zero is within a certain range. -/
theorem leadingPower_range (positive : 0 < magnitude) (finite : magnitude < infiniteMagnitude) :
    -324 ≤ leadingPower (unitsOf magnitude) unitsPerOne ∧
      leadingPower (unitsOf magnitude) unitsPerOne ≤ 308 := by
  -- The smallest magnitude and the largest one are far inside both powers of ten.
  have units : 0 < unitsOf magnitude := (Nat.zero_le _).trans_lt (unitsOf_strictMono positive)
  have one : unitsPerOne < 10 ^ (323 + 1) := by decide +kernel
  have most : unitsOf magnitude < 10 ^ (308 + 1) * unitsPerOne := unitsOf_lt finite
  -- The units of one are only compared, and never computed.
  generalize unitsPerOne = scale at *
  rw [leadingPower]
  split
  · -- From one on, the digits in front of the point are counted.
    have digits : digitCount (unitsOf magnitude / scale) ≤ 308 + 1 :=
      digitCount_le ((Nat.div_lt_iff_lt_mul (by omega)).2 most)
    omega
  · -- Below one, the zeros behind the point are.
    have digits : digitCount ((scale - 1) / unitsOf magnitude) ≤ 323 + 1 :=
      digitCount_le ((Nat.div_le_self _ _).trans_lt (by omega))
    omega

/-- Seventeen digits are near enough to the number that they were rounded from. -/
theorem magnitudeOfDigits_seventeen {power : Int} {digits : Nat × Int}
    (significant : Significant (worth magnitude) power 17 digits)
    (finite : magnitude < infiniteMagnitude) (leading : (10 : ℚ) ^ power ≤ worth magnitude)
    (low : -324 ≤ power) (high : power ≤ 308) : magnitudeOfDigits 17 digits = magnitude := by
  have width : digitCount digits.1 = 17 := digitCount_eq_of_lt significant.low significant.high
  have place := significant.place
  have nonzero : digits.1 ≠ 0 :=
    (Nat.lt_of_lt_of_le (by decide : 0 < 10 ^ 16) significant.low).ne'
  obtain ⟨scaled, divisor, positive, value, rounded⟩ :=
    @exists_nearestDecimal digits.1 (digits.2 - (17 : ℕ) + 1) nonzero (by omega) (by omega)
  rw [magnitudeOfDigits, rounded]
  refine nearest_eq_of_close positive finite ?_
  rw [value]
  -- Half a unit of the last digit is less than one part in two to the power of 54.
  have unit : (10 : ℚ) ^ power = 10 ^ 16 * 10 ^ (power - (17 : ℕ) + 1) := by
    rw [← zpow_natCast, ← zpow_add₀ (by norm_num)]
    congr 1
    push_cast
    ring
  have close := significant.close
  have positiveUnit : (0 : ℚ) < 10 ^ (power - (17 : ℕ) + 1) := by positivity
  rw [unit] at leading
  generalize (10 : ℚ) ^ (power - (17 : ℕ) + 1) = last at *
  generalize |digits.1 * 10 ^ (digits.2 - (17 : ℕ) + 1) - worth magnitude| = distance at *
  linarith

/-- The digits that are chosen read back, and they are significant ones. -/
theorem exists_shortestDigits (positive : 0 < magnitude) (finite : magnitude < infiniteMagnitude) :
    ∃ count, count ≠ 0 ∧ (∃ power, Significant (worth magnitude) power count
      (shortestDigits magnitude)) ∧ magnitudeOfDigits count (shortestDigits magnitude) = magnitude := by
  have units : 0 < unitsOf magnitude := (Nat.zero_le _).trans_lt (unitsOf_strictMono positive)
  obtain ⟨low, high⟩ := leadingPower_bounds units unitsPerOne_pos
  obtain ⟨least, most⟩ := leadingPower_range positive finite
  have significant : ∀ count : Nat, count ≠ 0 →
      Significant (worth magnitude) (leadingPower (unitsOf magnitude) unitsPerOne) count
        (significantDigits (unitsOf magnitude) unitsPerOne
          (leadingPower (unitsOf magnitude) unitsPerOne) count) :=
    fun count asked => significantDigits_spec unitsPerOne_pos asked low high
  simp only [shortestDigits]
  -- Either fewer digits read back, or seventeen are taken.
  cases found : (List.range' 1 16).find? fun count =>
    magnitudeOfDigits count (significantDigits (unitsOf magnitude) unitsPerOne
      (leadingPower (unitsOf magnitude) unitsPerOne) count) == magnitude with
  | some count =>
    have asked : count ≠ 0 := by
      have among := List.mem_of_find?_eq_some found
      simp only [List.mem_range'_1] at among
      omega
    rw [Option.getD_some]
    refine ⟨count, asked, ⟨leadingPower (unitsOf magnitude) unitsPerOne, ?_⟩, ?_⟩
    · exact significant count asked
    · have readsBack := List.find?_some found
      rwa [beq_iff_eq] at readsBack
  | none =>
    rw [Option.getD_none]
    refine ⟨17, by decide, ⟨leadingPower (unitsOf magnitude) unitsPerOne, ?_⟩, ?_⟩
    · exact significant 17 (by decide)
    · have spec := significant 17 (by decide)
      have leading : (10 : ℚ) ^ leadingPower (unitsOf magnitude) unitsPerOne ≤ worth magnitude := low
      exact magnitudeOfDigits_seventeen spec finite leading least most

/-- The digits of a number, with the place of the first, are read as the number. -/
theorem nearestDecimal_shortestDigits (positive : 0 < magnitude)
    (finite : magnitude < infiniteMagnitude) :
    nearestDecimal (shortestDigits magnitude).1
      ((shortestDigits magnitude).2 - digitCount (shortestDigits magnitude).1 + 1) = magnitude := by
  -- There is at least one digit, which the place of the first is told by.
  obtain ⟨count, nonzero, ⟨power, significant⟩, readsBack⟩ := exists_shortestDigits positive finite
  obtain ⟨fewer, rfl⟩ := Nat.exists_eq_succ_of_ne_zero nonzero
  rw [digitCount_eq_of_lt significant.low significant.high]
  exact readsBack

end Binary64

end TableStore
