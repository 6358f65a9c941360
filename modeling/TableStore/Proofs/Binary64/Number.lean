import Mathlib.Data.EReal.Operations
import TableStore.Proofs.Binary64.Units

/-!
What a pattern of 64 bits denotes as a binary64 number: a real number, an infinity or nothing.
Main statement: numbers other than zero that denote the same have the same bits.
-/

namespace TableStore

namespace Binary64

/-- The highest bit tells negative numbers from positive ones. -/
def sign (x : Binary64) : Nat := x.bits.toNat / 2 ^ 63

/-- The eleven bits behind the sign scale a number. -/
def exponent (x : Binary64) : Nat := x.bits.toNat / 2 ^ 52 % 2 ^ 11

/-- The lowest fifty-two bits. -/
def fraction (x : Binary64) : Nat := x.bits.toNat % 2 ^ 52

/-- The real number or the infinity that a number denotes; there is none for a NaN. -/
noncomputable def number? (x : Binary64) : Option EReal :=
  -- The greatest exponent is left to the infinities and the NaNs.
  if x.exponent = 2047 then
    if x.fraction = 0 then some (if x.sign = 0 then ⊤ else ⊥) else none
  else if x.exponent = 0 then
    -- A subnormal number has no leading bit in front of its fraction.
    some ((-1) ^ x.sign * (x.fraction * 2 ^ (-1074 : ℤ)) : ℝ)
  else
    some ((-1) ^ x.sign * ((2 ^ 52 + x.fraction) * 2 ^ (x.exponent - 1075 : ℤ)) : ℝ)

/-- A magnitude is an exponent and a fraction. -/
theorem magnitude_eq (x : Binary64) : x.magnitude = x.exponent * exponentStep + x.fraction := by
  -- The sign bit stands above both of them, and is taken off.
  simp only [magnitude, exponent, fraction, signBit, exponentStep]
  omega

/-- A fraction is less than a step of the exponent. -/
theorem fraction_lt (x : Binary64) : x.fraction < exponentStep := Nat.mod_lt _ (by decide)

/-- The exponent is at most that of the infinities. -/
theorem exponent_le (x : Binary64) : x.exponent ≤ 2047 := by
  -- Eleven bits make no larger number.
  simp only [exponent]
  omega

/-- The sign is one bit. -/
theorem sign_lt_two (x : Binary64) : x.sign < 2 := by
  -- Of the 64 bits none is left above the highest.
  have range := x.bits.toNat_lt
  simp only [sign]
  omega

/-- A number is negative exactly if its sign is set. -/
theorem isNegative_iff {x : Binary64} : x.isNegative = true ↔ x.sign = 1 := by
  -- The comparison with the sign bit is one with the quotient by it.
  have range := x.bits.toNat_lt
  rw [isNegative, decide_eq_true_eq]
  simp only [sign, signBit]
  omega

/-- A number is finite unless all bits of its exponent are set. -/
theorem isFinite_iff {x : Binary64} : x.isFinite = true ↔ x.exponent ≠ 2047 := by
  -- A fraction never makes up for a step of the exponent.
  have small := x.fraction_lt
  have most := x.exponent_le
  simp only [isFinite, magnitude_eq, infiniteMagnitude, exponentStep, decide_eq_true_eq] at *
  omega

/-- Not a number is what has all bits of its exponent set, and one of its fraction. -/
theorem isNaN_iff {x : Binary64} : x.isNaN = true ↔ x.exponent = 2047 ∧ x.fraction ≠ 0 := by
  -- Beyond the infinities only the fraction can be more than theirs.
  have small := x.fraction_lt
  have most := x.exponent_le
  simp only [isNaN, magnitude_eq, infiniteMagnitude, exponentStep, decide_eq_true_eq] at *
  omega

/-- The exact value has the sign of the highest bit. -/
theorem cast_exactUnits (x : Binary64) : (x.exactUnits : ℝ) = (-1) ^ x.sign * x.units := by
  -- The sign is either one or zero, and tells how the units count.
  have two := x.sign_lt_two
  rcases Nat.lt_or_ge 0 x.sign with negative | positive
  · have set : x.sign = 1 := by omega
    simp [exactUnits, signed, isNegative_iff.2 set, set]
  · have clear : x.sign = 0 := by omega
    have plain : x.isNegative = false := by
      rw [← Bool.not_eq_true, isNegative_iff]
      omega
    simp [exactUnits, signed, plain, clear]

/-- A finite number denotes its exact value, a unit being two to the power of minus 1074. -/
theorem number?_of_isFinite {x : Binary64} (finite : x.isFinite = true) :
    x.number? = some (((x.exactUnits : ℝ) * 2 ^ (-1074 : ℤ) : ℝ) : EReal) := by
  rw [number?, if_neg (isFinite_iff.1 finite), cast_exactUnits, units, magnitude_eq,
    unitsOf_fields _ x.fraction_lt, mul_assoc]
  split
  · rfl
  · next normal =>
    -- A step of the exponent doubles the unit.
    have scale : (2 : ℝ) ^ (x.exponent - 1075 : ℤ) = 2 ^ (x.exponent - 1) * 2 ^ (-1074 : ℤ) := by
      rw [← zpow_natCast, ← zpow_add₀ two_ne_zero]
      congr 1
      omega
    have step : (exponentStep : ℝ) = 2 ^ 52 := by norm_num [exponentStep]
    rw [scale, Nat.cast_mul, Nat.cast_add, Nat.cast_pow, Nat.cast_ofNat, step, mul_assoc]

/-- A number that is neither finite nor a NaN denotes the infinity of its sign. -/
theorem number?_of_infinite {x : Binary64} (infinite : x.isFinite = false)
    (number : x.isNaN = false) : x.number? = some (if x.sign = 0 then ⊤ else ⊥) := by
  -- All bits of the exponent are set, and none of the fraction.
  rw [← Bool.not_eq_true, isFinite_iff, not_not] at infinite
  rw [← Bool.not_eq_true, isNaN_iff, not_and, not_not] at number
  rw [number?, if_pos infinite, if_pos (number infinite)]

/-- A NaN denotes nothing, and everything else denotes something. -/
theorem number?_eq_none_iff {x : Binary64} : x.number? = none ↔ x.isNaN = true := by
  -- The three cases of the definition are those of the fields.
  rw [isNaN_iff, number?]
  split_ifs <;> simp [*]

/-- A number denotes a real number exactly if it is finite and worth as much. -/
theorem number?_eq_coe_iff {x : Binary64} {number : ℝ} :
    x.number? = some (number : EReal) ↔
      x.isFinite = true ∧ (x.exactUnits : ℝ) * 2 ^ (-1074 : ℤ) = number := by
  by_cases finite : x.isFinite = true
  · rw [number?_of_isFinite finite]
    rw [Option.some.injEq, EReal.coe_eq_coe_iff]
    exact (and_iff_right finite).symm
  · -- Infinities are not real, and NaNs denote nothing.
    have infinite : x.isFinite = false := by simpa using finite
    simp only [infinite, Bool.false_eq_true, false_and, iff_false]
    by_cases isNumber : x.isNaN = true
    · simp [number?_eq_none_iff.2 isNumber]
    · rw [number?_of_infinite infinite (by simpa using isNumber)]
      split <;> simp

/-- As many units as make up one are worth one. -/
theorem unitsPerOne_mul_unit : (unitsPerOne : ℝ) * 2 ^ (-1074 : ℤ) = 1 := by
  obtain ⟨power, known, worth⟩ := exists_unitsPerOne_eq
  -- A unit is the inverse of the power of two that one is worth.
  have unit : (-1074 : ℤ) = -(power : ℤ) := by omega
  rw [worth, unit]
  simp

/-- A number is a 64-bit integer exactly if it denotes the same real number. -/
theorem toInt64?_eq_some_iff_number? {x : Binary64} {number : Int64} :
    x.toInt64? = some number ↔ x.number? = some ((number.toInt : ℝ) : EReal) := by
  -- Both numbers are counted in units, so that they are compared as integers.
  have unit : (2 : ℝ) ^ (-1074 : ℤ) ≠ 0 := zpow_ne_zero _ two_ne_zero
  have worth : (number.toInt : ℝ) =
      ((number.toInt * unitsPerOne : ℤ) : ℝ) * 2 ^ (-1074 : ℤ) := by
    rw [Int.cast_mul, Int.cast_natCast, mul_assoc, unitsPerOne_mul_unit, mul_one]
  rw [toInt64?_eq_some_iff, number?_eq_coe_iff, worth, mul_left_inj' unit, Int.cast_inj]

/-- Numbers other than zero that denote the same have the same bits. -/
theorem eq_of_number?_eq {x y : Binary64} {number : EReal} (left : x.number? = some number)
    (right : y.number? = some number) (nonzero : number ≠ 0) : x = y := by
  by_cases finite : x.isFinite = true
  · -- Both are real, and a real number is worth one number of units.
    obtain ⟨real, rfl⟩ : ∃ real : ℝ, number = real :=
      ⟨_, Option.some.inj (left.symm.trans (number?_of_isFinite finite))⟩
    obtain ⟨-, worthLeft⟩ := number?_eq_coe_iff.1 left
    obtain ⟨-, worthRight⟩ := number?_eq_coe_iff.1 right
    have unit : (2 : ℝ) ^ (-1074 : ℤ) ≠ 0 := zpow_ne_zero _ two_ne_zero
    have same : x.exactUnits = y.exactUnits :=
      Int.cast_injective (mul_right_cancel₀ unit (worthLeft.trans worthRight.symm))
    refine eq_of_exactUnits_eq (fun zero => nonzero ?_) same
    rw [← worthLeft, zero, Int.cast_zero, zero_mul, EReal.coe_zero]
  · -- Both are infinite, and the two infinities differ in the sign.
    have other : ¬y.isFinite = true := by
      intro real
      obtain rfl := Option.some.inj (right.symm.trans (number?_of_isFinite real))
      exact finite (number?_eq_coe_iff.1 left).1
    rw [Bool.not_eq_true] at finite other
    have leftNumber : x.isNaN = false := by
      simp [← Bool.not_eq_true, ← number?_eq_none_iff, left]
    have rightNumber : y.isNaN = false := by
      simp [← Bool.not_eq_true, ← number?_eq_none_iff, right]
    rw [number?_of_infinite finite leftNumber] at left
    rw [number?_of_infinite other rightNumber, ← left, Option.some.injEq] at right
    have sign : x.isNegative = y.isNegative := by
      have twoLeft := x.sign_lt_two
      have twoRight := y.sign_lt_two
      rw [Bool.eq_iff_iff, isNegative_iff, isNegative_iff]
      split_ifs at right <;> simp at right <;> omega
    rw [← ofMagnitude_magnitude x, ← ofMagnitude_magnitude y, sign,
      magnitude_of_infinite finite leftNumber, magnitude_of_infinite other rightNumber]

end Binary64

end TableStore
