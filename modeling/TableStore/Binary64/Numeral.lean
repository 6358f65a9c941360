import TableStore.Binary64.Rounding

/-! Decimal numerals, infinities and NaN, read as the nearest binary64 number. -/

namespace TableStore

namespace Binary64

/-- Reads the exponent that may follow the digits of a numeral. -/
def readExponent : Bytes → Option Int
  | [] => some 0
  | mark :: rest => do
    -- The mark may be written in either case.
    guard (lowerByte mark == 0x65)
    let (negative, digits) := splitSign rest
    let magnitude ← readDecimal digits
    return signed negative magnitude

/-- Reads an unsigned decimal numeral as its digits and the power of ten that scales them. -/
def readNumeral (text : Bytes) : Option (Nat × Int) := do
  -- Digits may stand on both sides of the point, or on one of them.
  let whole := text.takeWhile isDigit
  let afterWhole := text.dropWhile isDigit
  let (fraction, afterFraction) := match afterWhole with
    | 0x2E :: rest => (rest.takeWhile isDigit, rest.dropWhile isDigit)
    | _ => ([], afterWhole)
  -- A point alone is no numeral.
  guard (whole ++ fraction ≠ [])
  let exponent ← readExponent afterFraction
  -- Each digit behind the point takes one off the power of ten.
  return (decimalValue (whole ++ fraction), exponent - fraction.length)

/-- NaN may carry a bracketed run of word bytes, which means nothing. -/
def isNaNText (text : Bytes) : Bool :=
  match lower (text.take 3) == "nan", text.drop 3 with
  | true, [] => true
  | true, 0x28 :: rest => rest.getLast? == some closeParenthesis && rest.dropLast.all isWordByte
  | _, _ => false

/-- Reads an unsigned number as a magnitude. -/
def readMagnitude (text : Bytes) : Option Nat :=
  -- The words for infinity and NaN may be written in any case.
  if lower text == "inf" || lower text == "infinity" then some infiniteMagnitude
  else if isNaNText text then some nan.magnitude
  else (readNumeral text).map fun (digits, exponent) => nearestDecimal digits exponent

/-- Reads an optionally signed number, ignoring white space around it; hexadecimal is refused. -/
def read (text : Bytes) : Option Binary64 := do
  let (negative, rest) := splitSign (trim text)
  -- No text with the mark of a hexadecimal number is one, not even inside a NaN.
  guard (rest.all fun byte => lowerByte byte != 0x78)
  let magnitude ← readMagnitude rest
  return ofMagnitude negative magnitude

end Binary64

end TableStore
