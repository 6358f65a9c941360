import Mathlib.Data.Nat.Log
import TableStore.Binary64.Rounding
import TableStore.Proofs.Binary64.Units

/-!
Whole numbers that are rounded to binary64. Main statements: of the numbers from two to the power of
63 on, those up to 1024 above it are rounded to that power, and all others further up.
-/

namespace TableStore

/-- A common factor does not change what a quotient is rounded to. -/
theorem roundHalfEven_mul_right (numerator denominator : Nat) {factor : Nat}
    (positive : 0 < factor) :
    roundHalfEven (numerator * factor) (denominator * factor) =
      roundHalfEven numerator denominator := by
  -- The quotient is the same, and the remainder is compared with half of the divisor to scale.
  have scaled (remainder : Nat) : 2 * (remainder * factor) = 2 * remainder * factor :=
    (Nat.mul_assoc ..).symm
  have tie (remainder : Nat) : (denominator * factor == 2 * remainder * factor) =
      (denominator == 2 * remainder) := by
    rw [Bool.eq_iff_iff, beq_iff_eq, beq_iff_eq, Nat.mul_left_inj positive.ne']
  simp only [roundHalfEven, Nat.mul_div_mul_right _ _ positive, Nat.mul_mod_mul_right, scaled, tie,
    Nat.mul_lt_mul_right positive]

/-- Powers of two move the highest bit of a number up. -/
theorem log2_mul_two_pow {number : Nat} (nonzero : number ≠ 0) (power : Nat) :
    (number * 2 ^ power).log2 = number.log2 + power := by
  -- The number lies between two powers of two, and both are multiplied.
  have positive : 0 < 2 ^ power := Nat.two_pow_pos power
  rw [Nat.log2_eq_iff (Nat.mul_ne_zero nonzero positive.ne'), Nat.add_right_comm, Nat.pow_add,
    Nat.pow_add 2 (number.log2 + 1)]
  exact ⟨Nat.mul_le_mul_right _ (Nat.log2_self_le nonzero),
    Nat.mul_lt_mul_of_pos_right Nat.lt_log2_self positive⟩

/-- A number has as many digits as powers of ten, beginning with one, do not exceed it. -/
theorem length_decimal (value : Nat) : (decimal value).length = Nat.log 10 value + 1 := by
  fun_induction decimal value with
  | case1 value small => simp [Nat.log_of_lt small]
  | case2 value large ih =>
    -- All digits but the last are those of a tenth of the number.
    rw [List.length_append, ih, Nat.log_of_one_lt_of_le (by decide) (Nat.not_lt.1 large)]
    rfl

/-- The number of digits is the logarithm to the base ten, and one. -/
theorem digitCount_eq_log (value : Nat) : digitCount value = Nat.log 10 value + 1 :=
  -- Digits are counted as those of the decimal text.
  (digitCount_eq value).trans (length_decimal value)

/-- A number below a power of ten has no more digits than its exponent says. -/
theorem digitCount_le {count value : Nat} (small : value < 10 ^ (count + 1)) :
    digitCount value ≤ count + 1 := by
  -- The logarithm is at most the exponent of the power.
  rw [digitCount_eq_log]
  exact Nat.log_lt_of_lt_pow' (Nat.succ_ne_zero count) small

namespace Binary64

/-- A whole number of at least 53 bits is rounded to those. -/
theorem nearest_whole {number : Nat} (large : 2 ^ 52 ≤ number) :
    nearest number 1 = min infiniteMagnitude ((number.log2 + 1022) * exponentStep +
      roundHalfEven number (2 ^ (number.log2 - 52))) := by
  have nonzero : number ≠ 0 := by omega
  have bits : 52 ≤ number.log2 := (Nat.le_log2 nonzero).2 large
  obtain ⟨power, exponent, worth⟩ := exists_unitsPerOne_eq
  -- Units are one power of two, which takes part in the shift and in both sides of the quotient.
  have shift : number.log2 + power - 52 = number.log2 - 52 + power := by omega
  have steps : number.log2 - 52 + power = number.log2 + 1022 := by omega
  simp only [nearest, worth, Nat.div_one, Nat.one_mul, Nat.pow_eq, log2_mul_two_pow nonzero, shift]
  rw [Nat.pow_add, roundHalfEven_mul_right _ _ (Nat.two_pow_pos power), steps]

/-- Just above two to the power of 63, whole numbers are rounded down to it. -/
theorem nearest_eq_int64Magnitude {number : Nat} (low : 2 ^ 63 ≤ number)
    (near : number ≤ 2 ^ 63 + 1024) : nearest number 1 = int64Magnitude := by
  have bits : number.log2 = 63 := (Nat.log2_eq_iff (by omega)).2 (by omega)
  rw [nearest_whole (by omega), bits]
  -- The remainder is at most half of what the last bit is worth, and the quotient is even.
  have rounded : roundHalfEven number (2 ^ (63 - 52)) = 2 ^ 52 := by
    have unit : 2 ^ (63 - 52) = 2048 := by decide
    have quotient : number / 2048 = 2 ^ 52 := by omega
    have remainder : number % 2048 ≤ 1024 := by omega
    simp only [roundHalfEven, unit, quotient]
    rw [if_neg]
    simp only [Bool.or_eq_true, decide_eq_true_eq, Bool.and_eq_true, beq_iff_eq]
    omega
  rw [rounded]
  decide

/-- From there on, whole numbers are rounded to more than two to the power of 63. -/
theorem int64Magnitude_lt_nearest {number : Nat} (far : 2 ^ 63 + 1024 < number) :
    int64Magnitude < nearest number 1 := by
  have nonzero : number ≠ 0 := by omega
  have bits : 63 ≤ number.log2 := (Nat.le_log2 nonzero).2 (by omega)
  have near := (roundHalfEven_near number (Nat.two_pow_pos (number.log2 - 52))).1
  rw [nearest_whole (by omega)]
  rcases Nat.eq_or_lt_of_le bits with lowest | higher
  · -- The last bit is worth 2048, and more than half of that is left over.
    rw [← lowest] at near ⊢
    generalize roundHalfEven number (2 ^ (63 - 52)) = significand at *
    simp only [int64Magnitude, infiniteMagnitude, exponentStep, Nat.lt_min]
    omega
  · -- The exponent alone is that of two to the power of 64 or more.
    have leading : 2 ^ 52 * 2 ^ (number.log2 - 52) ≤ number := by
      rw [← Nat.pow_add, Nat.add_sub_cancel' (by omega)]
      exact Nat.log2_self_le nonzero
    have significand : 2 * 2 ^ 52 ≤
        2 * roundHalfEven number (2 ^ (number.log2 - 52)) + 1 := by
      refine Nat.le_of_mul_le_mul_right ?_ (Nat.two_pow_pos (number.log2 - 52))
      rw [Nat.mul_assoc]
      omega
    generalize roundHalfEven number (2 ^ (number.log2 - 52)) = rounded at *
    simp only [int64Magnitude, infiniteMagnitude, exponentStep, Nat.lt_min]
    omega

/-- A magnitude that a decimal is rounded to is at most infinite. -/
theorem nearestDecimal_le (digits : Nat) (exponent : Int) :
    nearestDecimal digits exponent ≤ infiniteMagnitude := by
  -- Rounding itself stops at the infinities.
  have rounded (numerator denominator : Nat) :
      nearest numerator denominator ≤ infiniteMagnitude := Nat.min_le_left ..
  -- The other cases give zero or the infinity.
  rw [nearestDecimal]
  split_ifs <;> simp [rounded]

/-- Without an exponent, a decimal is rounded as a whole number unless it is beyond all numbers. -/
theorem nearestDecimal_zero {number : Nat} (nonzero : number ≠ 0) :
    nearestDecimal number 0 =
      if 310 < digitCount number then infiniteMagnitude else nearest number 1 := by
  -- The zeroth power of ten changes nothing, and no number has a negative number of digits.
  have whole : number * Nat.pow 10 (Int.toNat 0) = number := Nat.mul_one number
  rw [nearestDecimal, if_neg nonzero, Int.zero_add, whole, if_pos (Int.le_refl 0),
    if_neg (c := (digitCount number : Int) < -330) (by omega)]
  exact if_congr (by omega) rfl rfl

/-- The decimals that are rounded to two to the power of 63 from above. -/
theorem nearestDecimal_eq_int64Magnitude {number : Nat} (low : 2 ^ 63 ≤ number)
    (near : number ≤ 2 ^ 63 + 1024) : nearestDecimal number 0 = int64Magnitude := by
  -- Nineteen digits are far from being beyond all numbers.
  have width : digitCount number ≤ 310 := by
    have digits : digitCount number ≤ 18 + 1 := digitCount_le (by omega)
    omega
  rw [nearestDecimal_zero (by omega), if_neg (by omega), nearest_eq_int64Magnitude low near]

/-- All other decimals from there on are rounded to more. -/
theorem int64Magnitude_lt_nearestDecimal {number : Nat} (far : 2 ^ 63 + 1024 < number) :
    int64Magnitude < nearestDecimal number 0 := by
  -- Infinity is above every power of two, and so is what the number is rounded to.
  rw [nearestDecimal_zero (by omega)]
  split
  · decide
  · exact int64Magnitude_lt_nearest far

end Binary64

end TableStore
