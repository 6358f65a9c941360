import Mathlib.Algebra.Order.Ring.Int
import Mathlib.Order.Monotone.Basic
import TableStore.Binary64.Basic

/-!
Numbers counted in units of the smallest one. Main statements: the units grow strictly with the
magnitude, so that a finite number other than zero is determined by them, and a number equals a
64-bit integer exactly if its units are as many ones.
-/

namespace TableStore

/-- A sign and a magnitude give zero only for the magnitude zero. -/
theorem signed_eq_zero_iff {negative : Bool} {magnitude : Nat} :
    signed negative magnitude = 0 ↔ magnitude = 0 := by
  -- The two signs give the magnitude itself and its negative.
  cases negative <;> simp [signed]

/-- A sign goes through a product. -/
theorem signed_mul (negative : Bool) (left right : Nat) :
    signed negative (left * right) = signed negative left * right := by
  -- Only the negative sign has something to move out of the product.
  cases negative
  · simp [signed]
  · simp only [signed, if_true, Int.natCast_mul]
    exact (Int.neg_mul ..).symm

/-- An integer has the magnitude that it is put together from. -/
@[simp] theorem natAbs_signed (negative : Bool) (magnitude : Nat) :
    (signed negative magnitude).natAbs = magnitude := by
  -- The absolute value forgets the sign again.
  cases negative <;> simp [signed]

/-- An integer other than zero has the sign and the magnitude that it is put together from. -/
theorem signed_inj {leftSign rightSign : Bool} {left right : Nat} (positive : left ≠ 0)
    (same : signed leftSign left = signed rightSign right) :
    leftSign = rightSign ∧ left = right := by
  -- Of the four pairs of signs, two unequal ones would need both magnitudes to be zero.
  cases leftSign <;> cases rightSign <;> simp [signed] at * <;> omega

/-- The integers in range are those between the two outermost ones. -/
theorem fitsInt64_iff {value : Int} :
    fitsInt64 value = true ↔ -2 ^ 63 ≤ value ∧ value < 2 ^ 63 := by
  -- The two outermost integers are spelled out, which leaves a comparison of numbers.
  simp only [fitsInt64, Bool.and_eq_true, decide_eq_true_eq, Int64.toInt_minValue,
    Int64.toInt_maxValue]
  omega

/-- A 64-bit integer stands for the integer that it was made of. -/
theorem toInt64?_eq_some_iff {value : Int} {number : Int64} :
    toInt64? value = some number ↔ value = number.toInt := by
  constructor
  · intro fits
    simp only [toInt64?, Option.ite_none_right_eq_some, Option.some.injEq] at fits
    obtain ⟨inRange, rfl⟩ := fits
    obtain ⟨low, high⟩ := fitsInt64_iff.1 inRange
    exact (Int64.toInt_ofInt_of_le low high).symm
  · rintro rfl
    -- Every 64-bit integer is in range.
    have inRange : fitsInt64 number.toInt = true :=
      fitsInt64_iff.2 ⟨number.le_toInt, number.toInt_lt⟩
    rw [toInt64?, if_pos inRange, Int64.ofInt_toInt]

/-- An integer does not fit in 64 bits if it is below or above the range. -/
theorem toInt64?_eq_none_iff {value : Int} :
    toInt64? value = none ↔ value < -2 ^ 63 ∨ 2 ^ 63 ≤ value := by
  -- What is not in range is outside it on one of the two sides.
  simp only [toInt64?, ite_eq_right_iff, reduceCtorEq, imp_false, fitsInt64_iff]
  omega

namespace Binary64

/-- All infinities have one magnitude. -/
theorem magnitude_of_infinite {x : Binary64} (infinite : x.isFinite = false)
    (number : x.isNaN = false) : x.magnitude = infiniteMagnitude := by
  -- A magnitude that is neither below that of the infinities nor beyond it equals it.
  simp only [isFinite, isNaN, decide_eq_false_iff_not] at infinite number
  omega

/--
One is worth a power of two in units.

The exponent is named, so that what follows from the law of powers never computes this one.
-/
theorem exists_unitsPerOne_eq : ∃ power, power = 1074 ∧ unitsPerOne = 2 ^ power := by
  obtain ⟨power, known⟩ : ∃ power, power = 1074 := ⟨_, rfl⟩
  refine ⟨power, known, ?_⟩
  -- The numeral is replaced by its name before the two powers are compared.
  unfold unitsPerOne
  rw [← known, Nat.pow_eq]

/-- One is worth some units. -/
theorem unitsPerOne_pos : 0 < unitsPerOne := by
  -- A power of two is never zero.
  obtain ⟨power, -, worth⟩ := exists_unitsPerOne_eq
  rw [worth]
  exact Nat.two_pow_pos power

/-- The exact value of a finite number, in units. -/
def exactUnits (x : Binary64) : Int := signed x.isNegative x.units

/-- The value of a magnitude by its exponent and its fraction. -/
theorem unitsOf_fields (exponent : Nat) {fraction : Nat} (small : fraction < exponentStep) :
    unitsOf (exponent * exponentStep + fraction) =
      if exponent = 0 then fraction else (exponentStep + fraction) * 2 ^ (exponent - 1) := by
  -- Exponent and fraction are the quotient and the remainder by one step.
  have high : (exponent * exponentStep + fraction) / exponentStep = exponent := by
    simp only [exponentStep] at *
    omega
  have low : (exponent * exponentStep + fraction) % exponentStep = fraction := by
    simp only [exponentStep] at *
    omega
  simp only [unitsOf, high, low, Nat.pow_eq]

/-- The next magnitude is worth more units: the last fraction is followed by the next exponent. -/
theorem unitsOf_lt_succ (magnitude : Nat) : unitsOf magnitude < unitsOf (magnitude + 1) := by
  obtain ⟨exponent, fraction, small, rfl⟩ : ∃ exponent fraction, fraction < exponentStep ∧
      magnitude = exponent * exponentStep + fraction :=
    ⟨magnitude / exponentStep, magnitude % exponentStep, Nat.mod_lt _ (by decide),
      (Nat.div_add_mod' magnitude exponentStep).symm⟩
  have power : 0 < 2 ^ (exponent - 1) := Nat.two_pow_pos _
  rw [unitsOf_fields exponent small]
  by_cases inside : fraction + 1 < exponentStep
  · -- The exponent stays, and the fraction grows by one.
    rw [Nat.add_assoc, unitsOf_fields exponent inside]
    split
    · exact Nat.lt_succ_self fraction
    · exact Nat.mul_lt_mul_of_pos_right (by omega) power
  · -- The exponent grows by one, and the fraction starts again.
    have next : exponent * exponentStep + fraction + 1 = (exponent + 1) * exponentStep + 0 := by
      rw [Nat.succ_mul]
      omega
    rw [next, unitsOf_fields (exponent + 1) (by decide), if_neg (Nat.succ_ne_zero _),
      Nat.add_zero, Nat.add_sub_cancel]
    cases exponent with
    | zero => simpa using small
    | succ exponent =>
      rw [if_neg (Nat.succ_ne_zero _), Nat.pow_succ', ← Nat.mul_assoc]
      exact Nat.mul_lt_mul_of_pos_right (by omega) power

/-- The units grow strictly with the magnitude. -/
theorem unitsOf_strictMono : StrictMono unitsOf := strictMono_nat_of_lt_succ unitsOf_lt_succ

/-- From two to the power of 52 on, a number is a whole one, worth its significand shifted. -/
theorem unitsOf_whole (shift : Nat) {fraction : Nat} (small : fraction < exponentStep) :
    unitsOf ((1075 + shift) * exponentStep + fraction) =
      (exponentStep + fraction) * Nat.pow 2 shift * unitsPerOne := by
  obtain ⟨power, known, worth⟩ := exists_unitsPerOne_eq
  -- Of the exponent, as many steps as a unit is small make up for its size.
  have exponent : 1075 + shift - 1 = shift + power := by omega
  rw [unitsOf_fields _ small, if_neg (by omega), exponent, worth, Nat.pow_add, ← Nat.mul_assoc]
  rfl

/-- Two to the power of 63 is worth as many units as it has ones. -/
theorem unitsOf_int64Magnitude : unitsOf int64Magnitude = 2 ^ 63 * unitsPerOne := by
  -- Its exponent is eleven steps above that of the whole numbers of fifty-three bits.
  have fields : int64Magnitude = (1075 + 11) * exponentStep + 0 := by decide
  have power : (exponentStep + 0) * Nat.pow 2 11 = 2 ^ 63 := by decide
  rw [fields, unitsOf_whole 11 (by decide), power]

/-- Numbers of the same value other than zero have the same bits. -/
theorem eq_of_exactUnits_eq {x y : Binary64} (nonzero : x.exactUnits ≠ 0)
    (same : x.exactUnits = y.exactUnits) : x = y := by
  -- Equal integers other than zero share the sign and the magnitude, and so the bits.
  obtain ⟨sign, units⟩ := signed_inj (fun zero => nonzero (signed_eq_zero_iff.2 zero)) same
  rw [← ofMagnitude_magnitude x, ← ofMagnitude_magnitude y, sign,
    unitsOf_strictMono.injective units]

/-- A number is a 64-bit integer exactly if it is finite and worth as many ones. -/
theorem toInt64?_eq_some_iff {x : Binary64} {number : Int64} :
    x.toInt64? = some number ↔
      x.isFinite = true ∧ x.exactUnits = number.toInt * unitsPerOne := by
  have ones := unitsPerOne_pos
  have limit := unitsOf_int64Magnitude
  simp only [toInt64?, isIntegral, Option.ite_none_right_eq_some, Bool.and_eq_true,
    decide_eq_true_eq, beq_iff_eq, TableStore.toInt64?_eq_some_iff, truncate, exactUnits]
  generalize unitsPerOne = one at *
  constructor
  · rintro ⟨⟨-, finite, whole⟩, value⟩
    refine ⟨finite, ?_⟩
    rw [← value, ← signed_mul, Nat.div_mul_cancel (Nat.dvd_of_mod_eq_zero whole)]
  · rintro ⟨finite, value⟩
    -- The units are a multiple of one, and not more than those of two to the power of 63.
    have multiple : x.units = number.toInt.natAbs * one := by
      rw [← natAbs_signed x.isNegative x.units, value, Int.natAbs_mul, Int.natAbs_natCast]
    have bound : number.toInt.natAbs ≤ 2 ^ 63 := by
      have low := number.le_toInt
      have high := number.toInt_lt
      omega
    refine ⟨⟨?_, finite, ?_⟩, ?_⟩
    · rw [← unitsOf_strictMono.le_iff_le, limit]
      exact multiple.trans_le (Nat.mul_le_mul_right _ bound)
    · rw [multiple, Nat.mul_mod_left]
    · rw [multiple, Nat.mul_div_cancel _ ones]
      rw [multiple, signed_mul] at value
      exact Int.eq_of_mul_eq_mul_right (Int.natCast_ne_zero.2 ones.ne') value

end Binary64

end TableStore
