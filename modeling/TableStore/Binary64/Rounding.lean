import TableStore.Binary64.Basic

/-! The binary64 number nearest to an exact quotient, an integer or a decimal, with ties to even. -/

namespace TableStore

/-- The natural number nearest to a quotient; halfway between two, the even one. -/
def roundHalfEven (numerator denominator : Nat) : Nat :=
  let quotient := numerator / denominator
  let remainder := numerator % denominator
  -- Twice the remainder tells on which side of the half it lies.
  if denominator < 2 * remainder || (denominator == 2 * remainder && quotient % 2 == 1)
  then quotient + 1
  else quotient

/-- The rounded number is at most half a unit away from the quotient, on either side. -/
theorem roundHalfEven_near (numerator : Nat) {denominator : Nat} (positive : 0 < denominator) :
    2 * numerator ≤ (2 * roundHalfEven numerator denominator + 1) * denominator ∧
      2 * roundHalfEven numerator denominator * denominator ≤ 2 * numerator + denominator := by
  have division := Nat.div_add_mod numerator denominator
  have remainder := Nat.mod_lt numerator positive
  -- Once the quotient is a name, either way of rounding is a comparison with the remainder.
  simp only [roundHalfEven]
  generalize numerator / denominator = quotient at *
  split <;> constructor <;> grind

namespace Binary64

/-- The magnitude nearest to a quotient, infinite if no number is large enough. -/
def nearest (numerator denominator : Nat) : Nat :=
  let scaled := numerator * unitsPerOne
  -- Fifty-three bits are kept; a smaller quotient is a whole number of units as it stands.
  let shift := (scaled / denominator).log2 - 52
  let significand := roundHalfEven scaled (denominator * Nat.pow 2 shift)
  -- The leading one of the significand counts as the last step of the exponent.
  min infiniteMagnitude (shift * exponentStep + significand)

/-- The number nearest to an integer. -/
def ofInt (value : Int) : Binary64 := ofMagnitude (value < 0) (nearest value.natAbs 1)

/-- The magnitude nearest to `digits` times ten to the power of `exponent`. -/
def nearestDecimal (digits : Nat) (exponent : Int) : Nat :=
  let width : Int := digitCount digits
  if digits = 0 then 0
  -- Ten to the power of 310 is above every number, and minus 330 below half a unit.
  else if 310 < exponent + width then infiniteMagnitude
  else if exponent + width < -330 then 0
  else if 0 ≤ exponent then nearest (digits * Nat.pow 10 exponent.toNat) 1
  else nearest digits (Nat.pow 10 (-exponent).toNat)

end Binary64

end TableStore
