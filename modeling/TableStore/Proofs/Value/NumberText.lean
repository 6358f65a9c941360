import TableStore.Proofs.Binary64.Shortest
import TableStore.Proofs.Value.IntegerLiteral

/-!
Numbers written and read again. Main statement: the text of a 64-bit integer is read as that
integer, and the text of a binary64 number as the number with the same bits, or as a NaN for a NaN.
-/

namespace TableStore

variable {digits whole fraction tail text : Bytes}

/-- The byte that a fraction stands behind is no digit. -/
theorem isDigit_period : isDigit period = false := rfl

/-- Zeros in front of digits do not count. -/
theorem decimalValue_zeros_append (count : Nat) (digits : Bytes) :
    decimalValue (List.replicate count 0x30 ++ digits) = decimalValue digits := by
  -- By induction on the zeros, since the first of them adds nothing to the value.
  induction count with
  | zero => rfl
  | succ count ih =>
    rw [List.replicate_succ, List.cons_append, ← ih]
    rfl

/-- The decimal of a natural number is made of digits. -/
theorem digits_decimal (value : Nat) : Digits (decimal value) where
  nonempty := by
    -- It has one digit at least.
    rw [← List.length_pos_iff_ne_nil, length_decimal]
    exact Nat.succ_pos _
  all := List.all_eq_true.1 (all_isDigit_decimal value)

/-- A single zero is made of digits. -/
theorem digits_zero : Digits [0x30] where
  nonempty := List.cons_ne_nil 0x30 []
  all := by
    -- Its only byte is the zero.
    intro byte among
    obtain rfl := List.mem_singleton.1 among
    rfl

/-- Zeros in front of digits are digits, too. -/
theorem Digits.zeros_append (isDigits : Digits digits) (count : Nat) :
    Digits (List.replicate count 0x30 ++ digits) where
  -- They are not empty, since the digits behind the zeros are not.
  nonempty := by simp [isDigits.nonempty]
  all := by
    intro byte among
    -- A byte of theirs is one of the zeros or one of the digits.
    rcases List.mem_append.1 among with zero | digit
    · rw [List.eq_of_mem_replicate zero]
      rfl
    · exact isDigits.all byte digit

/-- Some digits from the front are digits. -/
theorem Digits.take (isDigits : Digits digits) (count : Nat) : Digits (digits.take (count + 1)) where
  -- One of them is there at least.
  nonempty := by simp [isDigits.nonempty]
  all := fun byte among => isDigits.all byte (List.mem_of_mem_take among)

/-- All that is left behind some digits is digits. -/
theorem Digits.all_drop (isDigits : Digits digits) (count : Nat) :
    ∀ byte ∈ digits.drop count, isDigit byte = true :=
  -- What is left is part of the whole.
  fun byte among => isDigits.all byte (List.mem_of_mem_drop among)

namespace Binary64

/-! ## Numerals -/

/-- Digits at the front of a text are cut off where they end. -/
theorem span_digits (all : ∀ byte ∈ whole, isDigit byte = true)
    (ends : tail.head?.any isDigit = false) :
    (whole ++ tail).takeWhile isDigit = whole ∧ (whole ++ tail).dropWhile isDigit = tail := by
  -- The digits are passed over, so that only the first byte behind them counts.
  rw [List.takeWhile_append_of_pos all, List.dropWhile_append_of_pos all]
  cases tail with
  | nil => simp
  | cons byte tail =>
    have other : isDigit byte = false := ends
    simp [other]

/-- A numeral without a point. -/
theorem readNumeral_whole (isDigits : Digits whole) (ends : tail.head?.any isDigit = false)
    (pointless : tail.head? ≠ some period) :
    readNumeral (whole ++ tail) =
      (readExponent tail).map fun exponent => (decimalValue whole, exponent) := by
  -- The digits in front are taken off, and the rest begins with no point.
  obtain ⟨taken, left⟩ := span_digits isDigits.all ends
  cases tail with
  | nil =>
    simp only [readNumeral, taken, left]
    simp [isDigits.nonempty, guard, Option.map_eq_bind]
  | cons byte tail =>
    have other : byte ≠ 0x2E := fun same => pointless (congrArg some same)
    simp only [readNumeral, taken, left]
    simp [other, isDigits.nonempty, guard, Option.map_eq_bind]

/-- A numeral with a point. -/
theorem readNumeral_point (isDigits : Digits whole) (all : ∀ byte ∈ fraction, isDigit byte = true)
    (ends : tail.head?.any isDigit = false) :
    readNumeral (whole ++ period :: (fraction ++ tail)) = (readExponent tail).map fun exponent =>
      (decimalValue (whole ++ fraction), exponent - (fraction.length : Int)) := by
  -- The digits in front are taken off, and then those behind the point.
  obtain ⟨taken, left⟩ := @span_digits whole (period :: (fraction ++ tail)) isDigits.all isDigit_period
  obtain ⟨takenFraction, leftFraction⟩ := span_digits all ends
  simp only [readNumeral, taken, left, period, takenFraction, leftFraction]
  simp [isDigits.nonempty, guard, Option.map_eq_bind]

/-- An exponent is written with a sign, and with a zero in front of a single digit. -/
theorem exists_exponentText (power : Int) :
    ∃ sign count, Sign [sign] (decide (power < 0)) ∧
      exponentText power = sign :: (List.replicate count 0x30 ++ decimal power.natAbs) := by
  -- The zero is put in front where a single digit would stand alone.
  obtain ⟨count, digits⟩ : ∃ count, (if (decimal power.natAbs).length < 2
      then 0x30 :: decimal power.natAbs else decimal power.natAbs) =
        List.replicate count 0x30 ++ decimal power.natAbs := by
    split
    · exact ⟨1, rfl⟩
    · exact ⟨0, rfl⟩
  -- The sign is a minus below zero and a plus otherwise.
  by_cases negative : power < 0
  · refine ⟨0x2D, count, ?_, ?_⟩
    · rw [decide_eq_true negative]
      exact .minus
    · simp only [exponentText, if_pos negative, digits]
  · refine ⟨0x2B, count, ?_, ?_⟩
    · rw [decide_eq_false negative]
      exact .plus
    · simp only [exponentText, if_neg negative, digits]

/-- The exponent of scientific notation is read. -/
theorem readExponent_exponentText (power : Int) :
    readExponent (0x65 :: exponentText power) = some power := by
  -- The sign and the digits of the exponent are read as the literal of an integer is.
  obtain ⟨sign, count, isSign, written⟩ := exists_exponentText power
  have isDigits := (digits_decimal power.natAbs).zeros_append count
  have cut := splitSign_append isSign isDigits.starts
  -- Sign and magnitude make up the exponent again.
  have value : signed (decide (power < 0)) power.natAbs = power := by
    by_cases negative : power < 0
    · rw [signed, if_pos (decide_eq_true negative)]
      omega
    · rw [signed, if_neg (by simpa using negative)]
      omega
  have mark : (lowerByte 0x65 == 0x65) = true := rfl
  rw [List.singleton_append] at cut
  rw [written, readExponent, mark, cut]
  simp [isDigits.readDecimal, decimalValue_zeros_append, decimalValue_decimal, value, guard]

/-- A decimal with a point or an exponent denotes a number of digits scaled by a power of ten. -/
inductive Decimal : Bytes → Nat → Int → Prop
  | point {whole fraction : Bytes} (isDigits : Digits whole)
      (all : ∀ byte ∈ fraction, isDigit byte = true) :
      Decimal (whole ++ period :: fraction) (decimalValue (whole ++ fraction))
        (-(fraction.length : Int))
  | scientific {whole : Bytes} (isDigits : Digits whole) (power : Int) :
      Decimal (whole ++ 0x65 :: exponentText power) (decimalValue whole) power
  | pointScientific {whole fraction : Bytes} (isDigits : Digits whole)
      (all : ∀ byte ∈ fraction, isDigit byte = true) (power : Int) :
      Decimal (whole ++ period :: (fraction ++ 0x65 :: exponentText power))
        (decimalValue (whole ++ fraction)) (power - (fraction.length : Int))

/-- A decimal is read as its value and its exponent. -/
theorem Decimal.readNumeral {value : Nat} {exponent : Int} (isDecimal : Decimal text value exponent) :
    readNumeral text = some (value, exponent) := by
  -- Each way to write a decimal is read by the lemma on its form.
  cases isDecimal with
  | @point whole fraction isDigits all =>
    have read := @readNumeral_point whole fraction [] isDigits all rfl
    simpa [readExponent] using read
  | scientific isDigits power =>
    rw [readNumeral_whole isDigits rfl (by simp [period]), readExponent_exponentText,
      Option.map_some]
  | pointScientific isDigits all power =>
    rw [readNumeral_point isDigits all rfl, readExponent_exponentText, Option.map_some]

/-- Zeros between the point and the digits bring these to their place. -/
theorem decimal_zeros (isDigits : Digits digits) (count : Nat) :
    Decimal (utf8 "0." ++ List.replicate count 0x30 ++ digits) (decimalValue digits)
      (-(count + digits.length : Int)) := by
  -- The zero in front of the point is one more zero in front of the digits.
  have value : decimalValue ([0x30] ++ (List.replicate count 0x30 ++ digits)) =
      decimalValue digits := decimalValue_zeros_append (count + 1) digits
  have isDecimal := Decimal.point digits_zero (isDigits.zeros_append count).all
  rw [value, List.length_append, List.length_replicate, Nat.cast_add] at isDecimal
  exact isDecimal

/-- A point stands among digits, so that some are left behind it. -/
theorem decimal_take_drop (isDigits : Digits digits) (count : Nat) :
    Decimal (digits.take (count + 1) ++ period :: digits.drop (count + 1)) (decimalValue digits)
      (-((digits.drop (count + 1)).length : Int)) := by
  -- Both sides of the point are digits, together those given.
  have isDecimal := Decimal.point (isDigits.take count) (isDigits.all_drop (count + 1))
  rwa [List.take_append_drop] at isDecimal

/-- In scientific notation the point stands behind the first of several digits. -/
theorem decimal_scientific (isDigits : Digits digits) (power : Int) :
    Decimal (digits.take 1 ++ (if (digits.drop 1).isEmpty then [] else period :: digits.drop 1) ++
      0x65 :: exponentText power) (decimalValue digits) (power - digits.length + 1) := by
  -- The point is left out where no digit would stand behind it.
  have some := List.length_pos_of_ne_nil isDigits.nonempty
  split
  · next single =>
    rw [List.isEmpty_iff, List.drop_eq_nil_iff] at single
    -- A single digit is not moved by the exponent.
    have exponent : power - (digits.length : Int) + 1 = power := by omega
    rw [List.take_of_length_le single, List.append_nil, exponent]
    exact .scientific isDigits power
  · have isDecimal := Decimal.pointScientific (isDigits.take 0) (isDigits.all_drop 1) power
    -- Each digit behind the point takes one off the exponent.
    have exponent : power - ((digits.drop 1).length : Int) = power - digits.length + 1 := by
      rw [List.length_drop]
      omega
    rw [List.take_append_drop, exponent] at isDecimal
    rwa [List.append_assoc, List.cons_append]

/-- Digits with the place of the first are laid out as a decimal that is rounded alike. -/
theorem exists_decimal_layout (isDigits : Digits digits) (power : Int) :
    ∃ value exponent, Decimal (layout digits power) value exponent ∧
      nearestDecimal value exponent =
        nearestDecimal (decimalValue digits) (power - digits.length + 1) := by
  rw [layout]
  split
  · next positional =>
    simp only [Bool.and_eq_true, decide_eq_true_eq] at positional
    split
    · next negative =>
      have exponent : -(((-power - 1).toNat : Int) + digits.length) = power - digits.length + 1 := by
        omega
      exact ⟨_, _, decimal_zeros isDigits _, by rw [exponent]⟩
    · next positive =>
      -- The point stands among the digits, or behind them and in front of a zero.
      simp only
      split
      · next whole =>
        rw [List.isEmpty_iff, List.drop_eq_nil_iff] at whole
        have exponent : power - (digits.length : Int) + 1 = 0 := by omega
        have value : decimalValue (digits ++ [0x30]) = decimalValue digits * 10 := by
          rw [decimalValue_append, Nat.mul_comm]
          rfl
        rw [List.take_of_length_le whole]
        refine ⟨_, _, .point isDigits digits_zero.all, ?_⟩
        rw [exponent, value, ← nearestDecimal_mul_ten (decimalValue digits) 0]
        rfl
      · have exponent : -((digits.drop (power.toNat + 1)).length : Int) =
            power - digits.length + 1 := by
          rw [List.length_drop]
          omega
        exact ⟨_, _, decimal_take_drop isDigits power.toNat, by rw [exponent]⟩
  · exact ⟨_, _, decimal_scientific isDigits power, rfl⟩

/-- The bytes of a decimal that are no digits. -/
abbrev marks : Bytes := [period, 0x65, 0x2B, 0x2D]

/-- A decimal begins with a digit. -/
theorem Decimal.starts {value : Nat} {exponent : Int} (isDecimal : Decimal text value exponent) :
    text.head?.any isDigit = true := by
  -- Every form has digits in front, of which there is one at least.
  have ofWhole : ∀ {whole : Bytes}, Digits whole → ∀ tail : Bytes,
      (whole ++ tail).head?.any isDigit = true := by
    intro whole isDigits tail
    rw [List.head?_append_of_ne_nil _ isDigits.nonempty]
    exact isDigits.starts
  cases isDecimal with
  | point isDigits _ => exact ofWhole isDigits _
  | scientific isDigits _ => exact ofWhole isDigits _
  | pointScientific isDigits _ _ => exact ofWhole isDigits _

/-- A decimal is made of digits and a few marks. -/
theorem Decimal.plain {value : Nat} {exponent : Int} (isDecimal : Decimal text value exponent) :
    ∀ byte ∈ text, isDigit byte = true ∨ byte ∈ marks := by
  -- In the exponent stand a mark, a sign and digits.
  have ofExponent : ∀ power : Int, ∀ byte ∈ 0x65 :: exponentText power,
      isDigit byte = true ∨ byte ∈ marks := by
    intro power byte among
    obtain ⟨sign, count, isSign, written⟩ := exists_exponentText power
    rw [written] at among
    rcases List.mem_cons.1 among with rfl | among
    · exact .inr (by decide)
    · rcases List.mem_cons.1 among with rfl | among
      · generalize decide (power < 0) = negative at isSign
        cases isSign <;> exact .inr (by decide)
      · exact .inl (((digits_decimal power.natAbs).zeros_append count).all byte among)
  intro byte among
  -- The forms are taken apart from the left.
  cases isDecimal with
  | point isDigits all =>
    rcases List.mem_append.1 among with among | among
    · exact .inl (isDigits.all byte among)
    · rcases List.mem_cons.1 among with rfl | among
      · exact .inr (by decide)
      · exact .inl (all byte among)
  | scientific isDigits _ =>
    rcases List.mem_append.1 among with among | among
    · exact .inl (isDigits.all byte among)
    · exact ofExponent _ byte among
  | pointScientific isDigits all _ =>
    rcases List.mem_append.1 among with among | among
    · exact .inl (isDigits.all byte among)
    · rcases List.mem_cons.1 among with rfl | among
      · exact .inr (by decide)
      · rcases List.mem_append.1 among with among | among
        · exact .inl (all byte among)
        · exact ofExponent _ byte among

/-- A decimal is more than digits. -/
theorem Decimal.readDecimal {value : Nat} {exponent : Int} (isDecimal : Decimal text value exponent) :
    readDecimal text = none := by
  -- Every form has a point or the mark of an exponent.
  have marked : ∃ byte ∈ text, isDigit byte = false := by
    cases isDecimal with
    | point _ _ => exact ⟨period, by simp, rfl⟩
    | scientific _ _ => exact ⟨0x65, by simp, rfl⟩
    | pointScientific _ _ _ => exact ⟨period, by simp, rfl⟩
  have mixed : text.all isDigit = false := by simpa using marked
  simp [TableStore.readDecimal, mixed]

/-- A decimal behind a sign is read as the number nearest to it, and never as an integer. -/
theorem Decimal.readLiteral {sign : Bytes} {negative : Bool} {value : Nat} {exponent : Int}
    (isSign : Sign sign negative) (isDecimal : Decimal text value exponent) :
    readLiteral (sign ++ text) = .float (ofMagnitude negative (nearestDecimal value exponent)) := by
  -- Digits and marks are neither white nor the letter of a hexadecimal number.
  have solid : ∀ byte ∈ text, isSpace byte = false ∧ (lowerByte byte != 0x78) = true := by
    intro byte among
    rcases isDecimal.plain byte among with digit | mark
    · refine ⟨isSpace_of_isWordByte (isWordByte_of_isDigit digit), ?_⟩
      grind [lowerByte_of_isDigit digit, isDigit]
    · simp only [List.mem_cons, List.not_mem_nil, or_false] at mark
      rcases mark with rfl | rfl | rfl | rfl <;> exact ⟨rfl, rfl⟩
  have trimmed : trim (sign ++ text) = sign ++ text := by
    refine trim_eq_self_of_forall fun byte among => ?_
    rcases List.mem_append.1 among with among | among
    · cases isSign <;> simp at among <;> subst among <;> rfl
    · exact (solid byte among).1
  have cut := splitSign_append isSign isDecimal.starts
  have integer : readInteger (sign ++ text) = none := by
    rw [readInteger, trimmed, cut]
    simp [isDecimal.readDecimal]
  have number : Binary64.read (sign ++ text) =
      some (ofMagnitude negative (nearestDecimal value exponent)) := by
    have allowed : text.all (fun byte => lowerByte byte != 0x78) = true :=
      List.all_eq_true.2 fun byte among => (solid byte among).2
    rw [Binary64.read, trimmed, cut]
    simp [allowed, readMagnitude_of_digit isDecimal.starts, isDecimal.readNumeral, guard]
  simp [TableStore.readLiteral, trimmed, unquote?_sign_append isSign isDecimal.starts, integer,
    number]

/-- The text of a finite magnitude is a decimal that is rounded to it. -/
theorem exists_decimal_magnitudeText {magnitude : Nat} (finite : magnitude < infiniteMagnitude) :
    ∃ value exponent, Decimal (magnitudeText magnitude) value exponent ∧
      nearestDecimal value exponent = magnitude := by
  -- The code writes zero by itself and any other magnitude by its shortest digits.
  rw [magnitudeText]
  split
  · next zero =>
    have isDecimal := Decimal.point digits_zero digits_zero.all
    have value : decimalValue ([0x30] ++ [0x30]) = 0 := by decide
    refine ⟨_, _, isDecimal, ?_⟩
    rw [value, zero, nearestDecimal, if_pos rfl]
  · next nonzero =>
    -- The shortest digits are rounded to the magnitude, wherever the point is put.
    have chosen := nearestDecimal_shortestDigits (Nat.pos_of_ne_zero nonzero) finite
    rw [if_neg finite.ne]
    generalize shortestDigits magnitude = shortest at *
    obtain ⟨digits, power⟩ := shortest
    obtain ⟨value, exponent, isDecimal, rounded⟩ :=
      exists_decimal_layout (digits_decimal digits) power
    refine ⟨value, exponent, isDecimal, ?_⟩
    rw [rounded, decimalValue_decimal, ← digitCount_eq]
    exact chosen

/-- The text of a number is a sign in front of the text of its magnitude. -/
theorem exists_sign_text {x : Binary64} (isNumber : x.isNaN = false) :
    ∃ sign, Sign sign x.isNegative ∧ x.text = sign ++ magnitudeText x.magnitude := by
  -- A number is no NaN, so that its text is a sign and a magnitude.
  rw [text, isNumber]
  cases x.isNegative with
  | true => exact ⟨_, .minus, rfl⟩
  | false => exact ⟨_, .absent, rfl⟩

/-- The text of a number is read as the number. -/
theorem readLiteral_text {x : Binary64} (isNumber : x.isNaN = false) :
    readLiteral x.text = .float x := by
  obtain ⟨sign, isSign, written⟩ := exists_sign_text isNumber
  have bits := ofMagnitude_magnitude x
  -- A finite number is read as its decimal; infinity is read as a word, for either sign.
  by_cases finite : x.magnitude < infiniteMagnitude
  · obtain ⟨value, exponent, isDecimal, rounded⟩ := exists_decimal_magnitudeText finite
    rw [written, isDecimal.readLiteral isSign, rounded, bits]
  · have infinite := magnitude_of_infinite (decide_eq_false finite) isNumber
    rw [written, infinite, ← bits, infinite]
    generalize x.isNegative = negative at isSign
    cases isSign <;> decide +kernel

end Binary64

/-- The text of an integer denotes it. -/
theorem integerLiteral_integerText (value : Int) : IntegerLiteral (integerText value) value := by
  have isDigits := digits_decimal value.natAbs
  -- The sign is written for negative integers only.
  by_cases negative : value < 0
  · have literal := IntegerLiteral.mk blank_nil .minus isDigits blank_nil
    have same : signed true value.natAbs = value := by
      rw [signed, if_pos rfl]
      omega
    rw [integerText, if_pos negative]
    simpa [decimalValue_decimal, same] using literal
  · have literal := IntegerLiteral.mk blank_nil .absent isDigits blank_nil
    have same : signed false value.natAbs = value := by
      rw [signed, if_neg Bool.false_ne_true]
      omega
    rw [integerText, if_neg negative]
    simpa [decimalValue_decimal, same] using literal

/--
The text of a value that is a number is read as the same number: that of a 64-bit integer as this
integer, and that of a binary64 number as a number of the same bits, but as some NaN for a NaN.
-/
theorem numbers_read_back :
    (∀ number : Int64, readLiteral (Value.integer number).toText = .integer number) ∧
      ∀ number : Binary64, ∃ back : Binary64,
        readLiteral (Value.float number).toText = .float back ∧
          if number.isNaN then back.isNaN = true else back = number := by
  refine ⟨fun number => ?_, fun number => ?_⟩
  · -- The text of an integer is a literal that denotes it, and in range.
    obtain ⟨negative, -, back⟩ := (integerLiteral_integerText number.toInt).readLiteral
    rw [Value.toText, back, toInt64?_eq_some_iff.2 rfl]
    rfl
  · -- A float is read back bit by bit, unless it is a NaN, of which there are many.
    rw [Value.toText]
    cases isNaN : number.isNaN with
    | true =>
      -- All of them have one text, and this is read as one of them.
      have written : number.text = utf8 "nan" := by rw [Binary64.text, if_pos isNaN]
      rw [written]
      refine ⟨.nan, by decide +kernel, ?_⟩
      rw [if_pos rfl]
      decide
    | false => exact ⟨number, Binary64.readLiteral_text isNaN, rfl⟩

end TableStore
