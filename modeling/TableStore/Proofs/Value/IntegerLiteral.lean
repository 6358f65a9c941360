import Mathlib.Data.List.Induction
import Mathlib.Data.Nat.Digits.Defs
import TableStore.Error
import TableStore.Proofs.Binary64.Whole
import TableStore.Proofs.Spaces
import TableStore.Value.Literal

/-!
Integer literals and their way to a column of integers, quoted or bare. Main statements: just the
literals in range are read as 64-bit integers, each as the one that it denotes; and both ways store
the integer that a literal denotes or refuse it, except that a bare literal just below the range is
rounded into it and stored as the least integer.
-/

namespace TableStore

/-- What may stand in front of digits, and whether it makes their number negative. -/
inductive Sign : Bytes → Bool → Prop
  | absent : Sign [] false
  | plus : Sign [0x2B] false
  | minus : Sign [0x2D] true

/-- One digit or more. -/
structure Digits (digits : Bytes) : Prop where
  nonempty : digits ≠ []
  all : ∀ byte ∈ digits, isDigit byte = true

/-- A text denotes an integer: one sign at most and some digits, with white space around them. -/
inductive IntegerLiteral : Bytes → Int → Prop
  | mk {front sign digits back : Bytes} {negative : Bool} (blankFront : Blank front)
    (isSign : Sign sign negative) (isDigits : Digits digits) (blankBack : Blank back) :
    IntegerLiteral (front ++ (sign ++ digits ++ back)) (signed negative (decimalValue digits))

variable {text sign digits : Bytes} {value : Int} {negative : Bool}

/-! ## Digits -/

/-- A digit is a word byte. -/
theorem isWordByte_of_isDigit {byte : UInt8} (digit : isDigit byte = true) :
    isWordByte byte = true := by
  -- Word bytes are the letters, the digits and the underscore.
  simp [isWordByte, digit]

/-- A digit is no capital. -/
theorem lowerByte_of_isDigit {byte : UInt8} (digit : isDigit byte = true) :
    lowerByte byte = byte := by
  -- Only capitals are lowered, and they lie above the digits.
  grind [lowerByte, isUpper, isDigit]

/-- Digits begin with one. -/
theorem Digits.starts (isDigits : Digits digits) : digits.head?.any isDigit = true := by
  -- There is a first digit, since there is one at all.
  obtain ⟨first, rest, rfl⟩ := List.exists_cons_of_ne_nil isDigits.nonempty
  exact isDigits.all first List.mem_cons_self

/-- Behind its sign stands what begins with a digit. -/
theorem splitSign_append (isSign : Sign sign negative) (starts : text.head?.any isDigit = true) :
    splitSign (sign ++ text) = (negative, text) := by
  cases isSign with
  | plus => rfl
  | minus => rfl
  | absent =>
    -- The first digit is no sign.
    rw [List.nil_append, splitSign]
    · rintro rest rfl
      exact absurd starts Bool.false_ne_true
    · rintro rest rfl
      exact absurd starts Bool.false_ne_true

/-- Digits and signs are no quotes. -/
theorem unquote?_sign_append (isSign : Sign sign negative)
    (starts : text.head?.any isDigit = true) : unquote? (sign ++ text) = none := by
  -- A sign is no quote, and without one the first byte is a digit.
  cases isSign with
  | plus => rfl
  | minus => rfl
  | absent =>
    cases text with
    | nil => rfl
    | cons first rest =>
      have plain := isQuote_of_isWordByte (isWordByte_of_isDigit starts)
      simp [unquote?, plain]

/-- What begins with a digit is read as a numeral, since no word for infinity or NaN does. -/
theorem readMagnitude_of_digit (starts : text.head?.any isDigit = true) :
    Binary64.readMagnitude text =
      (Binary64.readNumeral text).map fun numeral =>
        Binary64.nearestDecimal numeral.1 numeral.2 := by
  -- Each of the words begins with a letter, which no digit is turned into.
  cases text with
  | nil => simp at starts
  | cons first rest =>
    have digit : isDigit first = true := starts
    have other : ∀ letter : UInt8, isDigit letter = false → first ≠ letter := by
      rintro letter noDigit rfl
      exact absurd (digit.symm.trans noDigit) (by decide)
    have apart : ∀ letter : UInt8, isDigit letter = false → ∀ letters tail : Bytes,
        (lower (first :: tail) == letter :: letters) = false := by
      intro letter noDigit letters tail
      refine beq_false_of_ne fun same => ?_
      rw [lower, List.map_cons, lowerByte_of_isDigit digit] at same
      exact other letter noDigit (List.cons.inj same).1
    have notInf : (lower (first :: rest) == utf8 "inf") = false := apart _ rfl _ _
    have notInfinity : (lower (first :: rest) == utf8 "infinity") = false := apart _ rfl _ _
    have notNaN : Binary64.isNaNText (first :: rest) = false := by
      have letters : (lower ((first :: rest).take 3) == utf8 "nan") = false := apart _ rfl _ _
      rw [Binary64.isNaNText, letters]
    rw [Binary64.readMagnitude, notInf, notInfinity, notNaN]
    rfl

/-- Digits are read as the number that they denote. -/
theorem Digits.readDecimal (isDigits : Digits digits) :
    readDecimal digits = some (decimalValue digits) := by
  -- The check asks for digits only, and for at least one.
  rw [TableStore.readDecimal, if_pos]
  simpa [isDigits.nonempty] using isDigits.all

/-- Without a sign, digits are read as the number nearest to the one that they denote. -/
theorem Digits.readMagnitude (isDigits : Digits digits) :
    Binary64.readMagnitude digits = some (Binary64.nearestDecimal (decimalValue digits) 0) := by
  -- The numeral ends with the digits, without fraction and exponent.
  have numeral : Binary64.readNumeral digits = some (decimalValue digits, 0) := by
    have whole : digits.takeWhile isDigit = digits := List.takeWhile_eq_self_iff.2 isDigits.all
    have after : digits.dropWhile isDigit = [] := List.dropWhile_eq_nil_iff.2 isDigits.all
    simp [Binary64.readNumeral, whole, after, isDigits.nonempty, Binary64.readExponent, guard]
  rw [readMagnitude_of_digit isDigits.starts, numeral]
  rfl

/-! ## Literals -/

/-- Between the white space stand the sign and the digits. -/
theorem IntegerLiteral.exists_trim_eq (literal : IntegerLiteral text value) :
    ∃ sign negative digits, Sign sign negative ∧ Digits digits ∧ trim text = sign ++ digits ∧
      value = signed negative (decimalValue digits) := by
  -- The white space on both sides is what is trimmed, since nothing else is white space.
  obtain @⟨front, sign, digits, back, negative, blankFront, isSign, isDigits, blankBack⟩ := literal
  refine ⟨sign, negative, digits, isSign, isDigits, ?_, rfl⟩
  rw [trim_blank_append blankFront, trim_append_blank blankBack]
  refine trim_eq_self_of_forall fun byte among => ?_
  rcases List.mem_append.1 among with inSign | inDigits
  · cases isSign <;> simp at inSign <;> subst inSign <;> decide
  · exact isSpace_of_isWordByte (isWordByte_of_isDigit (isDigits.all byte inDigits))

/-- A literal is read as the 64-bit integer that it denotes, if there is one. -/
theorem IntegerLiteral.readInteger (literal : IntegerLiteral text value) :
    readInteger text = toInt64? value := by
  -- Behind the sign stand digits, and nothing else is read.
  obtain ⟨sign, negative, digits, isSign, isDigits, trimmed, rfl⟩ := literal.exists_trim_eq
  rw [TableStore.readInteger, trimmed, splitSign_append isSign isDigits.starts]
  simp [isDigits.readDecimal]

/-- A text is the sign that is taken off it and what is left. -/
theorem exists_sign_append (text : Bytes) :
    ∃ sign, Sign sign (splitSign text).1 ∧ text = sign ++ (splitSign text).2 := by
  -- The three ways to split are the three signs.
  fun_cases splitSign text with
  | case1 rest => exact ⟨_, .plus, rfl⟩
  | case2 rest => exact ⟨_, .minus, rfl⟩
  | case3 text => exact ⟨_, .absent, rfl⟩

/-- What is read as a 64-bit integer is a literal that denotes it. -/
theorem integerLiteral_of_readInteger {number : Int64}
    (read : readInteger text = some number) : IntegerLiteral text number.toInt := by
  obtain ⟨sign, isSign, cut⟩ := exists_sign_append (trim text)
  simp only [readInteger, readDecimal, Option.bind_eq_bind, Option.bind_eq_some_iff,
    Option.ite_none_right_eq_some, Option.some.injEq, Bool.and_eq_true, decide_eq_true_eq] at read
  obtain ⟨magnitude, ⟨⟨nonempty, all⟩, rfl⟩, fits⟩ := read
  have isDigits : Digits (splitSign (trim text)).2 := ⟨nonempty, List.all_eq_true.1 all⟩
  -- Around the sign and the digits there is white space only.
  obtain ⟨front, back, blankFront, blankBack, padded⟩ := exists_blank_append_trim_append_blank text
  rw [padded, cut, ← toInt64?_eq_some_iff.1 fits]
  exact .mk blankFront isSign isDigits blankBack

/-- The last digit counts for itself, and every other ten times as much as the one behind it. -/
theorem decimalValue_eq_ofDigits (digits : Bytes) :
    decimalValue digits = Nat.ofDigits 10 (digits.reverse.map digitValue) := by
  -- The induction is from the end, where one more digit moves all others up.
  induction digits using List.reverseRecOn with
  | nil => rfl
  | append_singleton digits byte ih =>
    rw [decimalValue_append, ih, List.reverse_append, List.reverse_singleton,
      List.singleton_append, List.map_cons, Nat.ofDigits_cons]
    omega

/-- A literal is a sign, if any, and digits that count by their places, within white space. -/
theorem integerLiteral_iff :
    IntegerLiteral text value ↔
      ∃ front sign negative digits back, text = front ++ (sign ++ digits ++ back) ∧
        Blank front ∧ Sign sign negative ∧ Digits digits ∧ Blank back ∧
        value = signed negative (Nat.ofDigits 10 (digits.reverse.map digitValue)) := by
  constructor
  · intro literal
    cases literal with
    | @mk front sign digits back negative blankFront isSign isDigits blankBack =>
      refine ⟨front, sign, negative, digits, back, rfl, blankFront, isSign, isDigits, blankBack, ?_⟩
      rw [decimalValue_eq_ofDigits]
  · rintro ⟨front, sign, negative, digits, back, rfl, blankFront, isSign, isDigits, blankBack, rfl⟩
    -- The digits by their places are what the literal counts.
    rw [← decimalValue_eq_ofDigits]
    exact .mk blankFront isSign isDigits blankBack

/--
A text is read as a 64-bit integer exactly if it is a literal that denotes this integer, and is read
at all exactly if it is a literal that denotes one in range: within white space one sign at most and
one digit or more, which count by their places.
-/
theorem integers_read_exactly (text : Bytes) :
    (∀ number, readInteger text = some number ↔ IntegerLiteral text number.toInt) ∧
      ((readInteger text).isSome = true ↔
        ∃ value, IntegerLiteral text value ∧ -2 ^ 63 ≤ value ∧ value ≤ 2 ^ 63 - 1) ∧
      ∀ value, IntegerLiteral text value ↔
        ∃ front sign negative digits back, text = front ++ (sign ++ digits ++ back) ∧
          Blank front ∧ Sign sign negative ∧ Digits digits ∧ Blank back ∧
          value = signed negative (Nat.ofDigits 10 (digits.reverse.map digitValue)) := by
  have reads : ∀ number, readInteger text = some number ↔ IntegerLiteral text number.toInt := by
    intro number
    constructor
    · exact integerLiteral_of_readInteger
    · intro literal
      rw [literal.readInteger]
      exact toInt64?_eq_some_iff.2 rfl
  refine ⟨reads, ?_, fun value => integerLiteral_iff⟩
  rw [Option.isSome_iff_exists]
  constructor
  · rintro ⟨number, read⟩
    have least := number.le_toInt
    have most := number.toInt_lt
    exact ⟨number.toInt, (reads number).1 read, by omega, by omega⟩
  · rintro ⟨value, literal, least, most⟩
    -- An integer in range is the one of some 64-bit integer.
    have same : (Int64.ofInt value).toInt = value := Int64.toInt_ofInt_of_le least (by omega)
    exact ⟨.ofInt value, (reads _).2 (by rwa [same])⟩

/-- Leading zeros do not matter, and a second sign or a sign alone is refused. -/
example : readInteger " -0009223372036854775808\n" = some Int64.minValue ∧
    readInteger "+-5" = none ∧ readInteger "-" = none := by
  decide

/-- A literal is read as the number nearest to the integer that it denotes. -/
theorem IntegerLiteral.readNumber (literal : IntegerLiteral text value) :
    ∃ negative, value = signed negative value.natAbs ∧ Binary64.read text =
      some (.ofMagnitude negative (Binary64.nearestDecimal value.natAbs 0)) := by
  -- The same sign and digits go to the number that is read.
  obtain ⟨sign, negative, digits, isSign, isDigits, trimmed, rfl⟩ := literal.exists_trim_eq
  refine ⟨negative, by rw [natAbs_signed], ?_⟩
  -- No digit is the mark of a hexadecimal number.
  have decimal : digits.all (fun byte => lowerByte byte != 0x78) = true := by
    refine List.all_eq_true.2 fun byte among => ?_
    have digit := isDigits.all byte among
    grind [lowerByte_of_isDigit digit, isDigit]
  rw [Binary64.read, trimmed, splitSign_append isSign isDigits.starts]
  simp [decimal, isDigits.readMagnitude, guard]

/-- The white space around a literal does not belong to it, and it is not quoted. -/
theorem IntegerLiteral.trim (literal : IntegerLiteral text value) :
    IntegerLiteral (trim text) value ∧ unquote? (TableStore.trim text) = none := by
  -- Without its white space the literal is its sign and its digits.
  obtain ⟨sign, negative, digits, isSign, isDigits, trimmed, rfl⟩ := literal.exists_trim_eq
  have inner := IntegerLiteral.mk blank_nil isSign isDigits blank_nil
  rw [trimmed]
  exact ⟨by simpa using inner, unquote?_sign_append isSign isDigits.starts⟩

/-- A bare literal is an integer if it is in range, and the nearest number otherwise. -/
theorem IntegerLiteral.readLiteral (literal : IntegerLiteral text value) :
    ∃ negative, value = signed negative value.natAbs ∧ readLiteral text =
      (toInt64? value).elim
        (.float (.ofMagnitude negative (Binary64.nearestDecimal value.natAbs 0))) .integer := by
  -- The literal is not quoted, so that an integer is tried first and a number then.
  obtain ⟨inner, plain⟩ := literal.trim
  obtain ⟨negative, sign, number⟩ := inner.readNumber
  refine ⟨negative, sign, ?_⟩
  rw [TableStore.readLiteral]
  simp only [plain, inner.readInteger, number]
  cases toInt64? value <;> rfl

/-! ## Columns -/

namespace Column

open Binary64

variable {magnitude : Nat}

/-- A finite number becomes the integer that is left without its fractional part. -/
theorem toInteger?_ofMagnitude (finite : magnitude < infiniteMagnitude) :
    toInteger? (.float (.ofMagnitude negative magnitude)) =
      toInt64? (signed negative (unitsOf magnitude / unitsPerOne)) := by
  -- The magnitude leaves the sign bit free, so that sign and magnitude are read back.
  have small : magnitude < signBit := finite.trans (by decide)
  rw [toInteger?, isFinite, truncate, units, magnitude_ofMagnitude negative small,
    isNegative_ofMagnitude negative small, if_pos (decide_eq_true finite)]

/-- A number beyond two to the power of 63 is no 64-bit integer, whatever its sign. -/
theorem toInteger?_eq_none (large : int64Magnitude < magnitude)
    (bounded : magnitude ≤ infiniteMagnitude) :
    toInteger? (.float (.ofMagnitude negative magnitude)) = none := by
  rcases Nat.eq_or_lt_of_le bounded with rfl | finite
  · cases negative <;> decide
  · rw [toInteger?_ofMagnitude finite, toInt64?_eq_none_iff]
    -- The next number above that power is 2048 larger.
    have next : (2 ^ 63 + 2048) * unitsPerOne = unitsOf (int64Magnitude + 1) := by
      have fields : int64Magnitude + 1 = (1075 + 11) * exponentStep + 1 := by decide
      have power : (exponentStep + 1) * Nat.pow 2 11 = 2 ^ 63 + 2048 := by decide
      rw [fields, unitsOf_whole 11 (by decide), power]
    have most : (2 ^ 63 + 2048) ≤ unitsOf magnitude / unitsPerOne := by
      rw [Nat.le_div_iff_mul_le unitsPerOne_pos, next]
      exact unitsOf_strictMono.monotone large
    generalize unitsOf magnitude / unitsPerOne = whole at *
    cases negative <;> simp only [signed] <;> grind

/-- The integer that a column gets from a number that a bare literal is rounded to. -/
theorem toInteger?_nearest {number : Nat} (low : 2 ^ 63 ≤ number) :
    toInteger? (.float (.ofMagnitude negative (nearestDecimal number 0))) =
      if number ≤ 2 ^ 63 + 1024 then toInt64? (signed negative (2 ^ 63)) else none := by
  -- Up to halfway to the next number, the literal is rounded to the end of the range.
  split
  · next near =>
    rw [nearestDecimal_eq_int64Magnitude low near, toInteger?_ofMagnitude (by decide),
      unitsOf_int64Magnitude, Nat.mul_div_cancel _ unitsPerOne_pos]
  · next far =>
    exact toInteger?_eq_none (int64Magnitude_lt_nearestDecimal (by omega)) (nearestDecimal_le ..)

/-- A column refuses a value because its type does not match. -/
def Refuses (column : Column) (value : Value) : Prop :=
  ∃ cause, column.convert value = .error cause ∧
    (QueryError.conversion cause).status = .typeMismatch

variable {column : Column} {raw : Value}

/-- A column of integers stores the integer that a value becomes. -/
theorem convert_of_toInteger? (isInt : column.type = .int) {number : Int64}
    (becomes : toInteger? raw = some number) : column.convert raw = .ok (.integer number) := by
  -- The stored integer is the one that the code takes for the column.
  simp [convert, isInt, becomes]

/-- A column of integers refuses a value that becomes none. -/
theorem refuses_of_toInteger? (isInt : column.type = .int) (becomes : toInteger? raw = none) :
    column.Refuses raw := by
  -- The refusal names the raw text and the type of the column.
  refine ⟨⟨raw.toText, column.typeName⟩, ?_, rfl⟩
  simp [convert, isInt, becomes]

/--
A quoted literal reaches a column of integers exactly or is refused for being out of range. A bare
one does the same unless it is at most 1024 below the range: there it is stored as the least
integer.
-/
theorem convert_integerLiteral (isInt : column.type = .int)
    (literal : IntegerLiteral text value) :
    (-2 ^ 63 ≤ value → value < 2 ^ 63 →
        column.convert (.text text) = .ok (.integer (.ofInt value)) ∧
        column.convert (TableStore.readLiteral text) = .ok (.integer (.ofInt value))) ∧
      (value < -2 ^ 63 ∨ 2 ^ 63 ≤ value → column.Refuses (.text text)) ∧
      (value < -2 ^ 63 - 1024 ∨ 2 ^ 63 ≤ value →
        column.Refuses (TableStore.readLiteral text)) ∧
      (-2 ^ 63 - 1024 ≤ value → value < -2 ^ 63 →
        column.convert (TableStore.readLiteral text) = .ok (.integer Int64.minValue)) := by
  have quoted : toInteger? (.text text) = toInt64? value := literal.readInteger
  obtain ⟨negative, sign, bare⟩ := literal.readLiteral
  -- Out of range, a bare literal is rounded first.
  have rounded (outside : value < -2 ^ 63 ∨ 2 ^ 63 ≤ value) :
      toInteger? (TableStore.readLiteral text) =
        if value.natAbs ≤ 2 ^ 63 + 1024 then toInt64? (signed negative (2 ^ 63)) else none := by
    rw [bare, toInt64?_eq_none_iff.2 outside, Option.elim_none, toInteger?_nearest (by omega)]
  refine ⟨fun low high => ?_, fun outside => ?_, fun outside => ?_, fun low high => ?_⟩
  · have fits : toInt64? value = some (.ofInt value) :=
      toInt64?_eq_some_iff.2 (Int64.toInt_ofInt_of_le low high).symm
    refine ⟨convert_of_toInteger? isInt (quoted.trans fits), convert_of_toInteger? isInt ?_⟩
    rw [bare, fits]
    rfl
  · exact refuses_of_toInteger? isInt (quoted.trans (toInt64?_eq_none_iff.2 outside))
  · apply refuses_of_toInteger? isInt
    rw [rounded (by omega)]
    -- Near the range it is the positive power of two, which is just above it.
    split
    · cases negative
      · rfl
      · simp only [signed] at sign
        grind
    · rfl
  · apply convert_of_toInteger? isInt
    rw [rounded (by omega), if_pos (by omega)]
    -- Below the range, the sign is a minus.
    cases negative
    · simp only [signed] at sign
      grind
    · rfl

/-- Halfway to the next number, a bare literal still is the least integer, and next to it none. -/
theorem convert_integerLiteral_halfway :
    (declare "id" "INT").Refuses (.text " -9223372036854776832") ∧
      (declare "id" "INT").convert (TableStore.readLiteral " -9223372036854776832") =
        .ok (.integer Int64.minValue) ∧
      (declare "id" "INT").Refuses (TableStore.readLiteral "-9223372036854776833") ∧
      (declare "id" "INT").convert (TableStore.readLiteral "+9223372036854775807") =
        .ok (.integer (.ofInt 9223372036854775807)) := by
  -- One literal for each of the cases, written as its parts.
  have isInt : (declare "id" "INT").type = .int := by decide
  have nearDigits : Digits "9223372036854776832" := ⟨by decide, List.all_eq_true.1 (by decide)⟩
  have halfway : IntegerLiteral " -9223372036854776832" (-9223372036854776832) :=
    .mk (by decide : Blank [space]) .minus nearDigits blank_nil
  have farDigits : Digits "9223372036854776833" := ⟨by decide, List.all_eq_true.1 (by decide)⟩
  have further : IntegerLiteral "-9223372036854776833" (-9223372036854776833) :=
    .mk blank_nil .minus farDigits blank_nil
  have mostDigits : Digits "9223372036854775807" := ⟨by decide, List.all_eq_true.1 (by decide)⟩
  have greatest : IntegerLiteral "+9223372036854775807" 9223372036854775807 :=
    .mk blank_nil .plus mostDigits blank_nil
  exact ⟨(convert_integerLiteral isInt halfway).2.1 (by decide),
    (convert_integerLiteral isInt halfway).2.2.2 (by decide) (by decide),
    (convert_integerLiteral isInt further).2.2.1 (by decide),
    ((convert_integerLiteral isInt greatest).1 (by decide) (by decide)).2⟩

/--
A literal one below the range is refused as a quoted text, but stored as the least integer when it
stands bare.
-/
theorem bare_integer_rounded_into_range :
    IntegerLiteral "-9223372036854775809" (-9223372036854775809) ∧
      (declare "id" "INT").Refuses (.text "-9223372036854775809") ∧
      (declare "id" "INT").convert (TableStore.readLiteral "-9223372036854775809") =
        .ok (.integer Int64.minValue) := by
  -- The digits make the text a literal; both conversions are run.
  have digits : Digits "9223372036854775809" := ⟨by decide, List.all_eq_true.1 (by decide)⟩
  exact ⟨.mk blank_nil .minus digits blank_nil,
    ⟨⟨"-9223372036854775809", "INT"⟩, by decide +kernel, rfl⟩, by decide +kernel⟩

end Column

end TableStore
