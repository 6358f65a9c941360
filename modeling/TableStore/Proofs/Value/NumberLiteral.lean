import TableStore.Proofs.Value.IntegerLiteral
import TableStore.Value.Key

/-!
Literals on their way to a column of numbers, quoted or bare. Main statement: both ways store equal
numbers or refuse the literal, also where the bare one is read as an integer first.
-/

namespace TableStore

variable {text : Bytes} {value : Int}

/-- A text that starts with a quote and ends with the same one. -/
def IsEnclosed (text : Bytes) : Prop :=
  ∃ quote inside, isQuote quote = true ∧ text = quote :: (inside ++ [quote])

/-- Quotes are taken off exactly where they enclose a text. -/
theorem unquote?_eq_none_iff : unquote? text = none ↔ ¬IsEnclosed text := by
  constructor
  · intro kept enclosed
    rcases enclosed with ⟨quote, inside, isQuoted, rfl⟩
    simp [unquote?, isQuoted] at kept
  · intro open_
    cases text with
    | nil => rfl
    | cons first rest =>
      rw [unquote?, if_neg]
      simp only [Bool.and_eq_true, beq_iff_eq, not_and]
      intro isQuoted last
      -- A last byte like the first one would enclose the text.
      obtain ⟨inside, rfl⟩ := List.getLast?_eq_some_iff.1 last
      exact open_ ⟨first, inside, isQuoted, rfl⟩

namespace Binary64

/-- White space around a number does not matter. -/
@[simp] theorem read_trim (text : Bytes) : read (trim text) = read text := by
  -- The text is trimmed before it is read, and trimming twice is trimming once.
  simp [read]

/-- A 64-bit integer has so few digits that the decimal is rounded as the integer is. -/
theorem nearestDecimal_natAbs (number : Int64) :
    -- The decimal is cut short only if it is out of every range, which no such integer is.
    nearestDecimal number.toInt.natAbs 0 = nearest number.toInt.natAbs 1 := by
  have low := number.le_toInt
  have high := number.toInt_lt
  by_cases zero : number.toInt.natAbs = 0
  · rw [zero]
    decide +kernel
  · have width : digitCount number.toInt.natAbs ≤ 310 := by
      have digits : digitCount number.toInt.natAbs ≤ 18 + 1 := digitCount_le (by omega)
      omega
    rw [nearestDecimal_zero zero, if_neg (by omega)]

end Binary64

/-- A literal in range is read as a number that equals the one its integer is rounded to. -/
theorem IntegerLiteral.read_beq_ofInt {number : Int64} (literal : IntegerLiteral text number.toInt) :
    ∃ read, Binary64.read text = some read ∧
      (.float (.ofInt number.toInt) == (.float read : Value)) = true := by
  obtain ⟨negative, sign, read⟩ := literal.readNumber
  refine ⟨_, read, ?_⟩
  rw [Binary64.nearestDecimal_natAbs, Binary64.ofInt]
  by_cases zero : number.toInt = 0
  · -- A zero may be written with a minus sign, and the two zeros are equal.
    rw [zero]
    cases negative <;> decide +kernel
  · have same : decide (number.toInt < 0) = negative := by
      cases negative <;> simp only [signed] at sign <;> simp <;> grind
    rw [same]
    exact BEq.rfl

namespace Column

variable {column : Column} {raw : Value}

/-- A column of numbers stores the number that a value becomes. -/
theorem convert_of_toFloat? (isFloat : column.type = .float) {number : Binary64}
    (becomes : toFloat? raw = some number) : column.convert raw = .ok (.float number) := by
  -- The stored number is the one that the code takes for the column.
  simp [convert, isFloat, becomes]

/-- A value that is refused is not stored. -/
theorem Refuses.isOk (refused : column.Refuses raw) : (column.convert raw).isOk = false := by
  -- A refusal is an error.
  obtain ⟨cause, error, -⟩ := refused
  rw [error]
  rfl

/-- A column of numbers refuses a value that becomes none. -/
theorem refuses_of_toFloat? (isFloat : column.type = .float) (becomes : toFloat? raw = none) :
    column.Refuses raw := by
  -- The refusal names what was to be stored and the type of the column.
  refine ⟨⟨raw.toText, column.typeName⟩, ?_, rfl⟩
  simp [convert, isFloat, becomes]

/--
A text without quotes around it reaches a column of numbers as a bare literal or quoted, and both
are refused for their type or stored as equal numbers.
-/
theorem convert_literal_agrees (isFloat : column.type = .float)
    (unquoted : ¬IsEnclosed (trim text)) :
    (column.Refuses (TableStore.readLiteral text) ∧ column.Refuses (.text text)) ∨
      ∃ bare quoted : Binary64,
        column.convert (TableStore.readLiteral text) = .ok (.float bare) ∧
        column.convert (.text text) = .ok (.float quoted) ∧
        (.float bare == (.float quoted : Value)) = true := by
  have bare := unquote?_eq_none_iff.2 unquoted
  cases integer : TableStore.readInteger (trim text) with
  | some number =>
    have literal : TableStore.readLiteral text = .integer number := by
      simp [TableStore.readLiteral, bare, integer]
    -- The integer is rounded on one way, and the decimal on the other.
    obtain ⟨read, quoted, same⟩ := (integerLiteral_of_readInteger integer).read_beq_ofInt
    rw [Binary64.read_trim] at quoted
    rw [literal]
    exact .inr ⟨_, read, convert_of_toFloat? isFloat rfl, convert_of_toFloat? isFloat quoted, same⟩
  | none =>
    cases read : Binary64.read text with
    | some number =>
      have literal : TableStore.readLiteral text = .float number := by
        simp [TableStore.readLiteral, bare, integer, Binary64.read_trim, read]
      rw [literal]
      exact .inr ⟨number, number, convert_of_toFloat? isFloat rfl,
        convert_of_toFloat? isFloat read, BEq.rfl⟩
    | none =>
      have literal : TableStore.readLiteral text = .text (trim text) := by
        simp [TableStore.readLiteral, bare, integer, Binary64.read_trim, read]
      rw [literal]
      refine .inl ⟨refuses_of_toFloat? isFloat ?_, refuses_of_toFloat? isFloat read⟩
      rw [toFloat?, Binary64.read_trim, read]

/--
An odd integer above two to the power of 53, which is no binary64 number, is stored alike on both
ways, and so is a zero with a minus sign, which only the quoted text keeps; a hexadecimal number is
refused.
-/
theorem convert_literal_agrees_rounded :
    (∃ bare quoted : Binary64,
      (declare "x" "FLOAT").convert (TableStore.readLiteral "-9007199254740993") =
        .ok (.float bare) ∧
      (declare "x" "FLOAT").convert (.text "-9007199254740993") = .ok (.float quoted) ∧
      (.float bare == (.float quoted : Value)) = true) ∧
    (∃ bare quoted : Binary64,
      (declare "x" "FLOAT").convert (TableStore.readLiteral " -0") = .ok (.float bare) ∧
      (declare "x" "FLOAT").convert (.text " -0") = .ok (.float quoted) ∧
      (.float bare == (.float quoted : Value)) = true) ∧
    (declare "x" "FLOAT").Refuses (TableStore.readLiteral "0x1p3") ∧
      (declare "x" "FLOAT").Refuses (.text "0x1p3") := by
  -- Each part is the theorem at a literal, with the other case excluded by a run.
  have isFloat : (declare "x" "FLOAT").type = .float := by decide
  refine ⟨?_, ?_, ?_⟩
  · refine (convert_literal_agrees isFloat (unquote?_eq_none_iff.1 (by decide))).resolve_left ?_
    exact fun refused => absurd refused.1.isOk (by decide +kernel)
  · refine (convert_literal_agrees isFloat (unquote?_eq_none_iff.1 (by decide))).resolve_left ?_
    exact fun refused => absurd refused.1.isOk (by decide +kernel)
  · refine (convert_literal_agrees isFloat (unquote?_eq_none_iff.1 (by decide))).resolve_right ?_
    rintro ⟨bare, -, stored, -⟩
    have isOk : _ = true := congrArg Except.isOk stored
    exact absurd isOk (by decide +kernel)

end Column

end TableStore
