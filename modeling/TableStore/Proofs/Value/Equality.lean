import TableStore.Proofs.Binary64.Number
import TableStore.Value.Key

/-!
What it means for two values to be equal. Main statement: equal values are equal texts, NaNs, or
numbers that denote the same real number or infinity exactly, and equal values have equal hashes.
-/

namespace TableStore

namespace Value

/-- The real number or the infinity that a value denotes, if it is a number and no NaN. -/
noncomputable def number? : Value → Option EReal
  -- A text denotes no number, even if it could be read as one.
  | .integer number => some ((number.toInt : ℝ) : EReal)
  | .float number => number.number?
  | .text _ => none

/-- Values that are the same: equal texts, two NaNs, or numbers that denote the same. -/
inductive Same : Value → Value → Prop
  | text (bytes : Bytes) : Same (.text bytes) (.text bytes)
  | nan {left right : Binary64} (leftNaN : left.number? = none) (rightNaN : right.number? = none) :
    Same (.float left) (.float right)
  | number {left right : Value} {number : EReal} (leftNumber : left.number? = some number)
    (rightNumber : right.number? = some number) : Same left right

variable {value left right : Value}

/-- The key of a text is the text. -/
theorem key_eq_text_iff {bytes : Bytes} : value.key = .text bytes ↔ value = .text bytes := by
  -- The keys of numbers are never texts.
  cases value with
  | integer number => simp [key]
  | text other => simp [key]
  | float number =>
    simp only [key]
    split
    · simp
    · split <;> simp

/-- All NaNs have one key, and nothing else has it. -/
theorem key_eq_nan_iff :
    value.key = .nan ↔ ∃ number : Binary64, value = .float number ∧ number.number? = none := by
  -- An integer has itself as its key and a text itself; a float has one of three.
  cases value with
  | integer number => simp [key]
  | text bytes => simp [key]
  | float number =>
    simp only [key, Binary64.number?_eq_none_iff]
    split
    · next isNaN => simpa using isNaN
    · next isNaN => split <;> simpa using isNaN

/-- A value has the key of an integer exactly if it denotes that integer. -/
theorem key_eq_integer_iff {number : Int64} :
    value.key = .integer number ↔ value.number? = some ((number.toInt : ℝ) : EReal) := by
  cases value with
  | integer other => simp [key, number?, Int64.toInt_inj]
  | text bytes => simp [key, number?]
  | float other =>
    rw [number?, ← Binary64.toInt64?_eq_some_iff_number?, key]
    split
    · next isNaN =>
      -- A NaN denotes nothing, so that it is no integer.
      have nothing := Binary64.number?_eq_none_iff.2 isNaN
      simp [Binary64.toInt64?_eq_some_iff_number?, nothing]
    · cases other.toInt64? <;> simp

/-- A number has a key of its own exactly if it is no NaN and denotes no 64-bit integer. -/
theorem key_eq_float_iff {number : Binary64} :
    value.key = .float number ↔
      value = .float number ∧ number.number? ≠ none ∧
        ∀ whole : Int64, number.number? ≠ some ((whole.toInt : ℝ) : EReal) := by
  -- Not to denote a 64-bit integer is stated as the code checks it.
  simp only [ne_eq, ← Binary64.toInt64?_eq_some_iff_number?, ← Option.eq_none_iff_forall_ne_some,
    Binary64.number?_eq_none_iff]
  cases value with
  | integer other => simp [key]
  | text bytes => simp [key]
  | float other =>
    -- The code asks for NaN first and for an integer then, and takes the number itself at last.
    simp only [key, float.injEq]
    split
    · next isNaN =>
      simp only [reduceCtorEq, false_iff, not_and]
      rintro rfl number
      exact absurd isNaN number
    · next isNumber =>
      cases fits : other.toInt64? with
      | some whole =>
        simp only [reduceCtorEq, false_iff, not_and]
        rintro rfl -
        simp [fits]
      | none =>
        simp only [Key.float.injEq]
        exact ⟨fun same => same ▸ ⟨rfl, isNumber, fits⟩, And.left⟩

/-- A number that is no 64-bit integer is stored as a float. -/
theorem exists_float_of_number? {number : EReal} (isNumber : value.number? = some number)
    (whole : ¬∃ integer : Int64, number = ((integer.toInt : ℝ) : EReal)) :
    ∃ x : Binary64, value = .float x ∧ x.number? = some number := by
  -- An integer would denote what was excluded, and a text denotes nothing.
  cases value with
  | integer integer => exact absurd ⟨integer, (Option.some.inj isNumber).symm⟩ whole
  | float x => exact ⟨x, rfl, isNumber⟩
  | text bytes => simp [number?] at isNumber

/-- Values have the same key exactly if they are the same. -/
theorem key_eq_iff : left.key = right.key ↔ Same left right := by
  constructor
  · intro same
    -- The key of the second value tells what both of them are.
    cases second : right.key with
    | text bytes =>
      obtain rfl := key_eq_text_iff.1 second
      obtain rfl := key_eq_text_iff.1 (same.trans second)
      exact .text bytes
    | nan =>
      obtain ⟨_, rfl, rightNaN⟩ := key_eq_nan_iff.1 second
      obtain ⟨_, rfl, leftNaN⟩ := key_eq_nan_iff.1 (same.trans second)
      exact .nan leftNaN rightNaN
    | integer number =>
      exact .number (key_eq_integer_iff.1 (same.trans second)) (key_eq_integer_iff.1 second)
    | float number =>
      obtain ⟨rfl, denotes, -⟩ := key_eq_float_iff.1 second
      obtain ⟨rfl, -⟩ := key_eq_float_iff.1 (same.trans second)
      obtain ⟨denoted, isNumber⟩ := Option.ne_none_iff_exists'.1 denotes
      exact .number isNumber isNumber
  · intro same
    cases same with
    | text bytes => rfl
    | nan leftNaN rightNaN =>
      rw [key_eq_nan_iff.2 ⟨_, rfl, leftNaN⟩, key_eq_nan_iff.2 ⟨_, rfl, rightNaN⟩]
    | @number left right number leftNumber rightNumber =>
      by_cases whole : ∃ integer : Int64, number = ((integer.toInt : ℝ) : EReal)
      · -- A 64-bit integer is the key of all values that denote it.
        obtain ⟨integer, rfl⟩ := whole
        rw [key_eq_integer_iff.2 leftNumber, key_eq_integer_iff.2 rightNumber]
      · -- All other numbers are stored in one way, zero being an integer.
        have nonzero : number ≠ 0 := fun zero => whole ⟨0, by simp [zero]⟩
        obtain ⟨x, rfl, isLeft⟩ := exists_float_of_number? leftNumber whole
        obtain ⟨y, rfl, isRight⟩ := exists_float_of_number? rightNumber whole
        rw [Binary64.eq_of_number?_eq isLeft isRight nonzero]

/--
Equality is that of what values denote, without rounding: equal texts, two NaNs, or numbers of
either kind that are the same real number or infinity. It is an equivalence, it tells every number
from every text, and equal values have equal hashes whatever the hashes of a platform are.
-/
theorem beq_exact_equivalence :
    (∀ left right : Value, (left == right) = true ↔ Same left right) ∧
      (∀ value : Value, (value == value) = true) ∧
      (∀ left right : Value, (left == right) = true → (right == left) = true) ∧
      (∀ first second third : Value, (first == second) = true → (second == third) = true →
        (first == third) = true) ∧
      (∀ (value : Value) (bytes : Bytes), value.isNumeric = true →
        (value == .text bytes) = false ∧ (.text bytes == value) = false) ∧
      ∀ (hashes : Hashes) (left right : Value), (left == right) = true →
        left.hashBy hashes = right.hashBy hashes := by
  refine ⟨fun left right => beq_iff.trans key_eq_iff, fun value => BEq.rfl,
    fun left right => BEq.symm, fun first second third => BEq.trans, ?_,
    fun hashes left right => hashBy_eq_of_beq hashes⟩
  intro value bytes numeric
  -- What is equal to a text is the text, and a text is no number.
  have differs : ¬value.key = .text bytes := by
    rintro same
    rw [key_eq_text_iff.1 same] at numeric
    simp [isNumeric, isText] at numeric
  constructor
  · rw [← Bool.not_eq_true, beq_iff]
    exact differs
  · rw [← Bool.not_eq_true, beq_iff]
    exact fun same => differs same.symm

/--
Two to the power of 53 is one value of two kinds and its successor another, although no float lies
between them, and the two zeros are equal and hashed as the integer.
-/
theorem beq_exact_equivalence_whole :
    Same (.integer 9007199254740992) (.float ⟨0x4340000000000000⟩) ∧
      ¬Same (.integer 9007199254740993) (.float ⟨0x4340000000000000⟩) ∧
      ((.float ⟨0x8000000000000000⟩ : Value) == .float ⟨0⟩) = true ∧
      ((.integer 0 : Value) == .text "0") = false ∧
      ∀ hashes, hashBy hashes (.float ⟨0x8000000000000000⟩) = hashBy hashes (.integer 0) := by
  -- The theorem gives the laws; what is left is to compare fixed values.
  obtain ⟨same, -, symm, trans, apart, hashed⟩ := beq_exact_equivalence
  have positive : ((.float ⟨0⟩ : Value) == .integer 0) = true := by decide +kernel
  have negative : ((.float ⟨0x8000000000000000⟩ : Value) == .integer 0) = true := by
    decide +kernel
  refine ⟨(same _ _).1 (by decide +kernel), fun other => ?_,
    trans _ _ _ negative (symm _ _ positive), (apart _ _ rfl).1, fun hashes => ?_⟩
  · exact absurd ((same _ _).2 other) (by decide +kernel)
  · exact hashed hashes _ _ negative

end Value

end TableStore
