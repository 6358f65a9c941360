import TableStore.Column
import TableStore.Proofs.Quoted
import TableStore.Proofs.Result
import TableStore.Proofs.Runs
import TableStore.Statement.Definition
import TableStore.Value.Literal

/-!
Texts on one line. Main statements: whatever is cut out of such a text is on one line too, and so
are names, numbers, and the text of every value that a literal on one line stands for.
-/

namespace TableStore

/-- A text on one line has no line end in it. -/
def OneLine (text : Bytes) : Prop := lineFeed ∉ text

instance : DecidablePred OneLine := fun text => inferInstanceAs (Decidable (lineFeed ∉ text))

variable {text part front rest : Bytes}

/-- Two texts one after the other are on one line exactly if both are. -/
@[simp] theorem oneLine_append_iff : OneLine (front ++ rest) ↔ OneLine front ∧ OneLine rest := by
  simp [OneLine]

/-- One more byte in front is allowed unless it ends a line. -/
@[simp] theorem oneLine_cons_iff {byte : UInt8} :
    OneLine (byte :: rest) ↔ byte ≠ 0x0A ∧ OneLine rest := by
  simp [OneLine, eq_comm]

/-- The empty text is on one line. -/
@[simp] theorem oneLine_nil : OneLine [] := by simp [OneLine]

/-- What has no other bytes than a text on one line is on one line. -/
theorem OneLine.of_subset (oneLine : OneLine text) (subset : part ⊆ text) : OneLine part :=
  -- A line end of the part would be one of the text.
  fun among => oneLine (subset among)

/-- A text is on one line if all its bytes pass a test that a line end does not pass. -/
theorem oneLine_of_forall {test : UInt8 → Bool} (all : ∀ byte ∈ text, test byte = true)
    (other : test lineFeed = false) : OneLine text := by
  -- A line end among the bytes would have to pass the test.
  intro among
  rw [all lineFeed among] at other
  exact absurd other (by decide)

/-- A name is on one line. -/
theorem oneLine_of_isIdentifier (isName : isIdentifier text = true) : OneLine text :=
  -- Names are made of word bytes, and a line end is none.
  oneLine_of_forall (fun _ among => isWordByte_of_mem isName among) (by decide)

/-- The case of letters makes no line end. -/
@[simp] theorem oneLine_upper_iff : OneLine (upper text) ↔ OneLine text := by
  -- A letter never becomes a line end, and a line end is no letter.
  have same (byte : UInt8) : upperByte byte = lineFeed ↔ byte = lineFeed := by
    grind [upperByte, isLower]
  simp [OneLine, upper, same]

/-- The white space around a text is cut off. -/
theorem trim_subset (text : Bytes) : trim text ⊆ text := by
  -- The text is its trimmed form between two blanks.
  obtain ⟨gap, gap', -, -, cut⟩ := exists_blank_append_trim_append_blank text
  intro byte among
  rw [cut]
  simp [among]

/-- A text on one line stays so when the white space around it is cut off. -/
theorem OneLine.trim (oneLine : OneLine text) : OneLine (trim text) :=
  oneLine.of_subset (trim_subset text)

/-! ## Parts -/

/-- A byte in front of the first part is the only one that the parts gain. -/
theorem subset_of_mem_modifyHead {parts : List Bytes} {byte : UInt8}
    (inner : ∀ part ∈ parts, part ⊆ rest) :
    ∀ part ∈ parts.modifyHead (byte :: ·), part ⊆ byte :: rest := by
  -- Only the first part is changed, and it gains just this byte.
  intro part among
  cases parts with
  | nil => simp at among
  | cons first parts =>
    rcases List.mem_cons.1 among with rfl | among
    · exact List.cons_subset_cons byte (inner first List.mem_cons_self)
    · exact fun other isIn => List.mem_cons_of_mem byte
        (inner part (List.mem_cons_of_mem first among) isIn)

/-- The parts between separators outside quotes are parts of the text. -/
theorem subset_of_mem_splitPlain {separator : UInt8} {quote : Option UInt8} :
    ∀ part ∈ splitPlain separator quote text, part ⊆ text := by
  -- Each byte either cuts, and is in no part, or joins the first part.
  fun_induction splitPlain separator quote text with
  | case1 => simp
  | case2 quote byte rest cut ih =>
    intro part among
    rcases List.mem_cons.1 among with rfl | among
    · exact List.nil_subset _
    · exact fun other isIn => List.mem_cons_of_mem byte (ih part among isIn)
  | case3 quote byte rest uncut ih => exact subset_of_mem_modifyHead ih

/-- The parts between commas outside parentheses are parts of the text. -/
theorem subset_of_mem_splitOutsideParentheses {depth : Nat} :
    ∀ part ∈ splitOutsideParentheses depth text, part ⊆ text := by
  -- Each byte either cuts, and is in no part, or joins the first part.
  fun_induction splitOutsideParentheses depth text with
  | case1 => simp
  | case2 depth byte rest cut ih =>
    intro part among
    rcases List.mem_cons.1 among with rfl | among
    · exact List.nil_subset _
    · exact fun other isIn => List.mem_cons_of_mem byte (ih part among isIn)
  | case3 depth byte rest uncut next ih => exact subset_of_mem_modifyHead ih

/-- No piece has a byte at which a text is cut. -/
theorem uncut_of_mem_splitWhere {cuts : UInt8 → Bool} :
    ∀ part ∈ splitWhere cuts text, ∀ byte ∈ part, cuts byte = false := by
  fun_induction splitWhere cuts text with
  | case1 => simp
  | case2 byte rest cut ih => simpa using ih
  | case3 byte rest uncut ih =>
    -- Only the first piece gains a byte, at which the text is not cut.
    cases pieces : splitWhere cuts rest with
    | nil => simp
    | cons first others =>
      rw [pieces] at ih
      simp only [List.modifyHead_cons, List.forall_mem_cons] at ih ⊢
      exact ⟨⟨by simpa using uncut, ih.1⟩, ih.2⟩

/-- A word of a text is on one line. -/
theorem oneLine_of_mem_words (among : part ∈ words text) : OneLine part := by
  -- A line end is white space, which cuts the words apart.
  intro isIn
  have solid := uncut_of_mem_splitWhere part (List.mem_filter.1 among).1 lineFeed isIn
  exact absurd solid (by decide)

/-- Lines have no line end in them. -/
theorem oneLine_of_mem_lines (among : part ∈ lines text) : OneLine part := by
  -- The lines are some of the pieces, which the line ends have been cut out of.
  have piece : part ∈ splitWhere (· == lineFeed) text := by
    simp only [lines] at among
    split at among
    · exact List.mem_of_mem_dropLast among
    · exact among
  intro isIn
  have solid := uncut_of_mem_splitWhere part piece lineFeed isIn
  exact absurd solid (by decide)

/-! ## Values -/

/-- Natural numbers are written in digits. -/
theorem oneLine_decimal (number : Nat) : OneLine (decimal number) :=
  -- A digit is no line end.
  oneLine_of_forall (List.all_eq_true.1 (all_isDigit_decimal number)) (by decide)

/-- Integers are written on one line. -/
theorem oneLine_integerText (number : Int) : OneLine (integerText number) := by
  rw [integerText]
  -- A sign may stand in front of the digits.
  split <;> simp [oneLine_decimal]

namespace Binary64

/-- An exponent is written in digits behind its sign. -/
theorem oneLine_exponentText (power : Int) : OneLine (exponentText power) := by
  -- The sign and a zero are the only other bytes of an exponent.
  have digits := oneLine_decimal power.natAbs
  simp only [exponentText]
  split_ifs <;> simp [digits]

/-- The digits of a number, its point and its exponent are on one line. -/
theorem oneLine_layout {digits : Bytes} (oneLine : OneLine digits) (power : Int) :
    OneLine (layout digits power) := by
  -- Every layout is made of parts of the digits, of zeros, of the point and of the exponent.
  have front (count : Nat) : OneLine (digits.take count) :=
    oneLine.of_subset (List.take_subset ..)
  have back (count : Nat) : OneLine (digits.drop count) :=
    oneLine.of_subset (List.drop_subset ..)
  have zeros (count : Nat) : OneLine (List.replicate count 0x30) :=
    oneLine_of_forall (fun _ among => by simp [List.eq_of_mem_replicate among, isDigit])
      (by decide : isDigit lineFeed = false)
  have start : OneLine (utf8 "0.") := by decide
  have point : period ≠ 0x0A := by decide
  simp only [layout]
  split_ifs <;>
    simp only [oneLine_append_iff, oneLine_cons_iff, oneLine_nil, oneLine, front, back, zeros,
      start, point, oneLine_exponentText, ne_eq, not_false_eq_true, and_self, and_true] <;>
    decide

/-- Numbers are written on one line. -/
theorem oneLine_text (x : Binary64) : OneLine x.text := by
  -- The sign is put in front of the magnitude, which has three ways of being written.
  have magnitude (magnitude : Nat) : OneLine (magnitudeText magnitude) := by
    have general (found : Nat × Int) : OneLine (layout (decimal found.1) found.2) :=
      oneLine_layout (oneLine_decimal _) _
    simp only [magnitudeText]
    split_ifs
    · decide
    · decide
    · exact general _
  rw [text]
  split_ifs
  · decide
  · simp [magnitude]
  · exact magnitude _

end Binary64

/-- The value of a literal on one line is written on one line. -/
theorem oneLine_readLiteral (oneLine : OneLine text) : OneLine (readLiteral text).toText := by
  have bare : OneLine (trim text) := oneLine.trim
  simp only [readLiteral]
  split
  · next inner unquoted =>
    -- What stands between the quotes is a part of the text.
    simp only [unquote?] at unquoted
    split at unquoted
    · next first rest same =>
      simp only [Option.ite_none_right_eq_some, Option.some.injEq] at unquoted
      obtain ⟨-, rfl⟩ := unquoted
      rw [same, oneLine_cons_iff] at bare
      exact bare.2.of_subset (List.dropLast_subset rest)
    · simp at unquoted
  · split
    · exact oneLine_integerText _
    · split
      · exact Binary64.oneLine_text _
      · exact bare

/-- What a column stores for a value that is written on one line is so too, and so is a refusal. -/
theorem Column.ends_convert {column : Column} {value : Value} (oneLine : OneLine value.toText)
    (declared : OneLine column.typeName) :
    Ends (fun stored => OneLine stored.toText) (fun cause => OneLine cause.message)
      (column.convert value) := by
  -- A refusal quotes the value and the type, and both are on one line.
  have refused : OneLine (ConversionError.mk value.toText column.typeName).message := by
    have start : OneLine (utf8 "Cannot convert '") := by decide
    have between : OneLine (utf8 "' to ") := by decide
    simp [ConversionError.message, start, between, oneLine, declared]
  simp only [convert]
  -- What is stored instead is a number, or the value itself.
  cases column.type with
  | int =>
    cases toInteger? value with
    | none => exact refused
    | some number => exact oneLine_integerText _
  | float =>
    cases toFloat? value with
    | none => exact refused
    | some number => exact Binary64.oneLine_text _
  | text => exact oneLine
  | unknown => exact oneLine

end TableStore
