import TableStore.Bytes.Decimal

/-!
Double-precision numbers as their 64 bits, with the exact value of each counted in units of the
smallest one, two to the power of minus 1074.
-/

namespace TableStore

/-- A binary64 number, given by its bits: a sign, eleven of exponent, fifty-two of fraction. -/
structure Binary64 where
  bits : UInt64
deriving DecidableEq

namespace Binary64

/-- The highest of the 64 bits is the sign. -/
def signBit : Nat := 0x8000000000000000

/-- One step of the exponent, which stands above the fifty-two bits of the fraction. -/
def exponentStep : Nat := 0x10000000000000

/-- The bits without the sign; on numbers it grows with the absolute value. -/
def magnitude (x : Binary64) : Nat := x.bits.toNat % signBit

/-- Whether the sign bit is set. -/
def isNegative (x : Binary64) : Bool := signBit ≤ x.bits.toNat

/-- The magnitude of the two infinities: all exponent bits set and no fraction. -/
def infiniteMagnitude : Nat := 2047 * exponentStep

/-- Everything beyond the infinities is not a number. -/
def isNaN (x : Binary64) : Bool := infiniteMagnitude < x.magnitude

/-- Everything below the infinities is a number. -/
def isFinite (x : Binary64) : Bool := x.magnitude < infiniteMagnitude

/-- The number with a given sign and magnitude. -/
def ofMagnitude (negative : Bool) (magnitude : Nat) : Binary64 :=
  ⟨UInt64.ofNat (if negative then signBit + magnitude else magnitude)⟩

/-- A number that is put together has the magnitude it was given. -/
theorem magnitude_ofMagnitude (negative : Bool) {magnitude : Nat} (small : magnitude < signBit) :
    (ofMagnitude negative magnitude).magnitude = magnitude := by
  -- With the sign bit taken out again, the magnitude is left as it was.
  cases negative <;> simp [ofMagnitude, Binary64.magnitude, signBit] at * <;> omega

/-- A number that is put together has the sign it was given. -/
theorem isNegative_ofMagnitude (negative : Bool) {magnitude : Nat} (small : magnitude < signBit) :
    (ofMagnitude negative magnitude).isNegative = negative := by
  -- A magnitude lies below the sign bit, so that the comparison sees the sign alone.
  cases negative <;> simp [ofMagnitude, isNegative, signBit] at * <;> omega

/-- A number is put together from its own sign and magnitude. -/
theorem ofMagnitude_magnitude (x : Binary64) : ofMagnitude x.isNegative x.magnitude = x := by
  obtain ⟨bits⟩ := x
  have range := bits.toNat_lt
  -- The sign bit is the highest one, so that it is set exactly from its own value on.
  by_cases negative : signBit ≤ bits.toNat <;>
    simp only [ofMagnitude, isNegative, Binary64.magnitude, negative, decide_true, decide_false,
      if_true, mk.injEq, ← UInt64.toNat_inj, UInt64.toNat_ofNat', Bool.false_eq_true, if_false] <;>
    simp only [signBit] at * <;> omega

/-- The quiet NaN that stands for all of them. -/
def nan : Binary64 := ofMagnitude false (infiniteMagnitude + exponentStep / 2)

/-- How many units make up one. -/
def unitsPerOne : Nat := Nat.pow 2 1074

/-- The exact value of a finite magnitude, in units. -/
def unitsOf (magnitude : Nat) : Nat :=
  let exponent := magnitude / exponentStep
  let fraction := magnitude % exponentStep
  -- The least exponent marks the numbers without a leading one.
  if exponent = 0 then fraction else (exponentStep + fraction) * Nat.pow 2 (exponent - 1)

/-- The exact absolute value of a finite number, in units. -/
def units (x : Binary64) : Nat := unitsOf x.magnitude

/-- A finite number without its fractional part. -/
def truncate (x : Binary64) : Int := signed x.isNegative (x.units / unitsPerOne)

/-- Whether a number is finite and has no fractional part. -/
def isIntegral (x : Binary64) : Bool := x.isFinite && x.units % unitsPerOne == 0

/-- The magnitude of two to the power of 63, which no 64-bit integer exceeds. -/
def int64Magnitude : Nat := 1086 * exponentStep

/-- The 64-bit integer that a number equals exactly, if there is one. -/
def toInt64? (x : Binary64) : Option Int64 :=
  if x.magnitude ≤ int64Magnitude && x.isIntegral then TableStore.toInt64? x.truncate else none

end Binary64

end TableStore
