import TableStore.Bytes.Basic

/-! Natural numbers and 64-bit integers as decimal text, written and read. -/

namespace TableStore

/-- The digit for a number below ten. -/
def digitByte (value : Nat) : UInt8 := UInt8.ofNat (0x30 + value)

/-- The number that a digit stands for. -/
def digitValue (byte : UInt8) : Nat := byte.toNat - 0x30

/-- The decimal digits of a number, without leading zeros. -/
def decimal (value : Nat) : Bytes :=
  -- The last digit comes from the remainder, and the others from the quotient.
  if value < 10 then [digitByte value]
  else decimal (value / 10) ++ [digitByte (value % 10)]
termination_by value

/-- The number that a run of digits denotes. -/
def decimalValue (digits : Bytes) : Nat :=
  digits.foldl (fun value byte => 10 * value + digitValue byte) 0

/-- The code of a digit. -/
theorem toNat_digitByte {value : Nat} (small : value < 10) :
    (digitByte value).toNat = 0x30 + value := by
  -- The code stays far below 256, so no wrap-around takes place.
  simp only [digitByte, UInt8.toNat_ofNat']
  omega

/-- A digit reads back as its number. -/
theorem digitValue_digitByte {value : Nat} (small : value < 10) :
    digitValue (digitByte value) = value := by
  -- Both directions add or take off the code of the digit zero.
  simp [digitValue, toNat_digitByte small]

/-- What is written for a number below ten is one of the ten digits. -/
theorem isDigit_digitByte {value : Nat} (small : value < 10) :
    isDigit (digitByte value) = true := by
  -- The bytes are compared by their codes, which run from that of zero to that of nine.
  simp only [isDigit, UInt8.le_iff_toNat_le, toNat_digitByte small, Bool.and_eq_true,
    decide_eq_true_eq]
  simp
  omega

/-- One more digit at the end counts for itself and moves the others up. -/
theorem decimalValue_append (digits : Bytes) (byte : UInt8) :
    decimalValue (digits ++ [byte]) = 10 * decimalValue digits + digitValue byte := by
  -- The fold over the digits takes the last one after all others.
  simp [decimalValue]

/-- The digits of a number read back as the number. -/
theorem decimalValue_decimal (value : Nat) : decimalValue (decimal value) = value := by
  -- The last digit is the remainder by ten, and the others are those of the quotient.
  fun_induction decimal value with
  | case1 value small => simpa [decimalValue] using digitValue_digitByte small
  | case2 value large ih =>
    rw [decimalValue_append, ih, digitValue_digitByte (Nat.mod_lt _ (by decide))]
    omega

/-- A number is written in digits alone. -/
theorem all_isDigit_decimal (value : Nat) : (decimal value).all isDigit = true := by
  -- Every digit is written for a number below ten.
  fun_induction decimal value with
  | case1 value small => simpa using isDigit_digitByte small
  | case2 value large ih =>
    simp [ih, isDigit_digitByte (Nat.mod_lt value (by decide : 0 < 10))]

/-- Reads a non-empty run of digits, of any length. -/
def readDecimal (text : Bytes) : Option Nat :=
  if text ≠ [] && text.all isDigit then some (decimalValue text) else none

/-- A number has as many digits as are left when some are cut off, and those. -/
theorem length_decimal_div (count : Nat) {value : Nat} (large : Nat.pow 10 count ≤ value) :
    (decimal value).length = (decimal (value / Nat.pow 10 count)).length + count := by
  induction count generalizing value with
  | zero => simp
  | succ count ih =>
    -- The last digit is cut off first, and the others from a tenth of the number.
    have power : Nat.pow 10 (count + 1) = 10 * Nat.pow 10 count := Nat.mul_comm _ _
    have positive : 0 < Nat.pow 10 count := Nat.pow_pos (by decide)
    rw [power] at large ⊢
    have rest : (decimal (value / 10)).length =
        (decimal (value / 10 / Nat.pow 10 count)).length + count := ih (by omega)
    rw [decimal, if_neg (by omega), List.length_append, rest, Nat.div_div_eq_div_mul]
    simp only [List.length_singleton]
    omega

/-- How many decimal digits a number has, counted sixteen at a time. -/
def digitCount (value : Nat) : Nat :=
  if value < 10000000000000000 then (decimal value).length
  else digitCount (value / 10000000000000000) + 16
termination_by value

/-- The count is the length of the decimal text. -/
theorem digitCount_eq (value : Nat) : digitCount value = (decimal value).length := by
  fun_induction digitCount value with
  | case1 => rfl
  | case2 value large ih =>
    -- Sixteen digits are split off at once, and the text has as many more.
    rw [ih]
    exact (length_decimal_div 16 (Nat.not_lt.1 large)).symm

/-- The decimal text of an integer, with a minus sign if it is negative. -/
def integerText (value : Int) : Bytes :=
  if value < 0 then 0x2D :: decimal value.natAbs else decimal value.natAbs

/-- Takes one sign off a text and tells whether it was a minus. -/
def splitSign : Bytes → Bool × Bytes
  | 0x2B :: rest => (false, rest)
  | 0x2D :: rest => (true, rest)
  | text => (false, text)

/-- The integer of a sign and a magnitude. -/
def signed (negative : Bool) (magnitude : Nat) : Int :=
  if negative then -(magnitude : Int) else magnitude

/-- The integers that fit in 64 bits. -/
def fitsInt64 (value : Int) : Bool :=
  Int64.minValue.toInt ≤ value && value ≤ Int64.maxValue.toInt

/-- The 64-bit integer of an integer, if it is in range. -/
def toInt64? (value : Int) : Option Int64 :=
  if fitsInt64 value then some (Int64.ofInt value) else none

/-- Reads an optionally signed decimal integer, ignoring white space around it. -/
def readInteger (text : Bytes) : Option Int64 := do
  -- Only one sign is allowed, and no white space behind it.
  let (negative, digits) := splitSign (trim text)
  let magnitude ← readDecimal digits
  toInt64? (signed negative magnitude)

end TableStore
