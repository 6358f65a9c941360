import TableStore.Binary64.Rounding

/-!
The text of a binary64 number: the fewest significant digits that read back as the same number,
up to seventeen, and always a point or an exponent.
-/

namespace TableStore

namespace Binary64

/-- The power of ten of the leading digit of a positive quotient. -/
def leadingPower (numerator denominator : Nat) : Int :=
  if denominator ≤ numerator then (digitCount (numerator / denominator) : Int) - 1
  else -(digitCount ((denominator - 1) / numerator) : Int)

/--
A positive quotient rounded to a number of significant digits, with the power of ten of the first;
before rounding that power is the one given.
-/
def significantDigits (numerator denominator : Nat) (power : Int) (count : Nat) : Nat × Int :=
  let places := (count : Int) - 1 - power
  let digits :=
    if 0 ≤ places then roundHalfEven (numerator * Nat.pow 10 places.toNat) denominator
    else roundHalfEven numerator (denominator * Nat.pow 10 (-places).toNat)
  -- Rounding up to the next power of ten leaves a one and a larger power.
  if digits = Nat.pow 10 count then (Nat.pow 10 (count - 1), power + 1) else (digits, power)

/-- The magnitude of a number of significant digits with the power of ten of the first. -/
def magnitudeOfDigits (count : Nat) (digits : Nat × Int) : Nat :=
  nearestDecimal digits.1 (digits.2 - count + 1)

/-- The fewest significant digits of a positive finite magnitude that read back. -/
def shortestDigits (magnitude : Nat) : Nat × Int :=
  -- The digits are taken from the exact value, with the power of ten of the first.
  let units := unitsOf magnitude
  let power := leadingPower units unitsPerOne
  let rounded := significantDigits units unitsPerOne power
  let readsBack (count : Nat) : Bool := magnitudeOfDigits count (rounded count) == magnitude
  -- Seventeen digits are always enough.
  rounded (((List.range' 1 16).find? readsBack).getD 17)

/-- The exponent of scientific notation, with its sign and at least two digits. -/
def exponentText (power : Int) : Bytes :=
  let digits := decimal power.natAbs
  -- The sign is written even if it is a plus.
  (if power < 0 then 0x2D else 0x2B) ::
    (if digits.length < 2 then 0x30 :: digits else digits)

/--
Digits with the power of ten of the first, written positionally from ten to the power of minus
four up to as many whole places as there are digits, and scientifically beyond.
-/
def layout (digits : Bytes) (power : Int) : Bytes :=
  if -4 ≤ power && power < digits.length then
    -- Below one, zeros fill the places between the point and the first digit.
    if power < 0 then utf8 "0." ++ List.replicate (-power - 1).toNat 0x30 ++ digits
    else
      -- A whole number gets a zero behind its point.
      let whole := digits.take (power.toNat + 1)
      let fraction := digits.drop (power.toNat + 1)
      whole ++ period :: (if fraction.isEmpty then [0x30] else fraction)
  else
    -- The point is written only if digits follow it.
    let fraction := digits.drop 1
    digits.take 1 ++ (if fraction.isEmpty then [] else period :: fraction) ++
      0x65 :: exponentText power

/-- The text of a magnitude that is not NaN. -/
def magnitudeText (magnitude : Nat) : Bytes :=
  if magnitude = 0 then "0.0"
  else if magnitude = infiniteMagnitude then "inf"
  else
    let (digits, power) := shortestDigits magnitude
    layout (decimal digits) power

/-- The text of a number; NaN has no sign. -/
def text (x : Binary64) : Bytes :=
  if x.isNaN then "nan"
  else if x.isNegative then 0x2D :: magnitudeText x.magnitude
  else magnitudeText x.magnitude

end Binary64

end TableStore
