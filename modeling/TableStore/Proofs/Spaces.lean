import Mathlib.Data.List.TakeWhile
import TableStore.Token

/-!
White space at the two ends of a text. Main statements: what is skipped or dropped is white space,
and `trim` does not see white space that is added at an end.
-/

namespace TableStore

/-- A text of white space only. -/
def Blank (text : Bytes) : Prop := ∀ byte ∈ text, isSpace byte = true

instance : DecidablePred Blank := fun text => List.decidableBAll (isSpace · = true) text

/-- A text that ends a word in front of it. -/
def EndsWord (text : Bytes) : Prop := text.head?.any isWordByte = false

instance : DecidablePred EndsWord := fun text =>
  inferInstanceAs (Decidable (text.head?.any isWordByte = false))

/-- White space belongs to no word. -/
theorem isWordByte_of_isSpace {byte : UInt8} (white : isSpace byte = true) :
    isWordByte byte = false := by
  -- The codes of white space are below those of all word bytes.
  grind [isSpace, isWordByte, isUpper, isLower, isDigit]

/-- A word has no white space in it. -/
theorem isSpace_of_isWordByte {byte : UInt8} (wordByte : isWordByte byte = true) :
    isSpace byte = false := by
  -- A byte that is both would be white space in a word.
  grind [isWordByte_of_isSpace]

/-- A word byte is no quote. -/
theorem isQuote_of_isWordByte {byte : UInt8} (wordByte : isWordByte byte = true) :
    isQuote byte = false := by
  -- Neither of the two quotes is a letter, a digit or a low line.
  grind [isQuote, isWordByte, isUpper, isLower, isDigit]

/-- White space is no quote. -/
theorem isQuote_of_isSpace {byte : UInt8} (white : isSpace byte = true) :
    isQuote byte = false := by
  -- The two quotes stand behind the codes of white space.
  grind [isSpace, isQuote]

/-- A quote is no white space. -/
theorem isSpace_of_isQuote {byte : UInt8} (isQuoted : isQuote byte = true) :
    isSpace byte = false := by
  -- A byte that is both would be a quote in white space.
  grind [isQuote_of_isSpace]

/-- The empty text is white space. -/
@[simp] theorem blank_nil : Blank [] := by simp [Blank]

/-- A text is white space exactly if its first byte is and the others are. -/
@[simp] theorem blank_cons_iff {byte : UInt8} {text : Bytes} :
    Blank (byte :: text) ↔ isSpace byte = true ∧ Blank text := by
  simp [Blank]

/-- Two texts together are white space exactly if both are. -/
@[simp] theorem blank_append_iff {front rest : Bytes} :
    Blank (front ++ rest) ↔ Blank front ∧ Blank rest := by
  -- A byte of both together is one of either.
  simp only [Blank, List.mem_append]
  exact ⟨fun blank => ⟨fun byte among => blank byte (.inl among),
      fun byte among => blank byte (.inr among)⟩,
    fun blank byte among => among.elim (blank.1 byte) (blank.2 byte)⟩

/-- White space stays so when it is read from its end. -/
@[simp] theorem blank_reverse_iff {text : Bytes} : Blank text.reverse ↔ Blank text := by
  simp [Blank]

/-- A text of white space is a word end. -/
theorem Blank.endsWord {text : Bytes} (blank : Blank text) : EndsWord text := by
  -- The first byte, if there is one, is no word byte.
  cases text with
  | nil => rfl
  | cons byte rest => simp [EndsWord, isWordByte_of_isSpace (blank_cons_iff.1 blank).1]

/-- What follows a text of white space begins with white space or is what ends the word. -/
theorem Blank.endsWord_append {gap rest : Bytes} (blank : Blank gap) (ends : EndsWord rest) :
    EndsWord (gap ++ rest) := by
  -- Either there is no gap, or its first byte ends the word.
  cases gap with
  | nil => exact ends
  | cons byte gap => simp [EndsWord, isWordByte_of_isSpace (blank_cons_iff.1 blank).1]

/-! ## In front -/

/-- The white space in front of a text does not matter. -/
theorem skipSpaces_append {gap : Bytes} (blank : Blank gap) (text : Bytes) :
    skipSpaces (gap ++ text) = skipSpaces text := List.dropWhile_append_of_pos blank

/-- Nothing is left behind the white space in front exactly if there is nothing else. -/
theorem skipSpaces_eq_nil_iff {text : Bytes} : skipSpaces text = [] ↔ Blank text := by
  -- Every byte passes the test, so that all are dropped.
  rw [skipSpaces, List.dropWhile_eq_nil_iff, Blank]

/-- A text that does not begin with white space is left as it is. -/
theorem skipSpaces_eq_self {text : Bytes} (starts : text.head?.any isSpace = false) :
    skipSpaces text = text := by
  -- The first byte already stops the skipping.
  cases text with
  | nil => rfl
  | cons byte rest => simp_all [skipSpaces]

/-- What is left does not begin with white space. -/
theorem head?_skipSpaces (text : Bytes) : (skipSpaces text).head?.any isSpace = false := by
  -- Skipping stops at the first byte that is not white space.
  have stops := List.head?_dropWhile_not isSpace text
  rw [skipSpaces]
  cases first : (text.dropWhile isSpace).head? with
  | none => rfl
  | some byte =>
    rw [first] at stops
    exact stops

/-- A text is the white space in front of it and what is left. -/
theorem exists_blank_append_skipSpaces (text : Bytes) :
    ∃ gap, Blank gap ∧ text = gap ++ skipSpaces text :=
  -- What is skipped is the longest run of white space.
  ⟨text.takeWhile isSpace, fun _ among => List.mem_takeWhile_imp among,
    (takeWhile_append_skipSpaces text).symm⟩

/-- What is left behind the white space in front is the end of the text. -/
theorem skipSpaces_suffix (text : Bytes) : skipSpaces text <:+ text := List.dropWhile_suffix _

/-- White space behind a text is skipped only if nothing else is there. -/
theorem skipSpaces_append_of_not_blank {text : Bytes} (filled : ¬Blank text) (rest : Bytes) :
    skipSpaces (text ++ rest) = skipSpaces text ++ rest := by
  -- Something of the first text is left, so that skipping does not reach the second.
  have kept : skipSpaces text ≠ [] := fun empty => filled (skipSpaces_eq_nil_iff.1 empty)
  rw [skipSpaces, List.dropWhile_append, if_neg]
  · rfl
  · simpa [skipSpaces] using kept

/-! ## Behind -/

/-- The white space behind a text is that in front of the text read from its end. -/
theorem dropTrailingSpaces_eq (text : Bytes) :
    dropTrailingSpaces text = (skipSpaces text.reverse).reverse := rfl

/-- The white space behind a text does not matter. -/
theorem dropTrailingSpaces_append {gap : Bytes} (blank : Blank gap) (text : Bytes) :
    dropTrailingSpaces (text ++ gap) = dropTrailingSpaces text := by
  -- Read from its end, the text has the white space in front.
  rw [dropTrailingSpaces_eq, dropTrailingSpaces_eq, List.reverse_append,
    skipSpaces_append (blank_reverse_iff.2 blank)]

/-- Nothing is left in front of the white space behind exactly if there is nothing else. -/
theorem dropTrailingSpaces_eq_nil_iff {text : Bytes} :
    dropTrailingSpaces text = [] ↔ Blank text := by
  -- It is the fact about the white space in front, for the text read from its end.
  rw [dropTrailingSpaces_eq, List.reverse_eq_nil_iff, skipSpaces_eq_nil_iff, blank_reverse_iff]

/-- A text that does not end in white space is left as it is. -/
theorem dropTrailingSpaces_eq_self {text : Bytes} (ends : text.getLast?.any isSpace = false) :
    dropTrailingSpaces text = text := by
  -- Read from its end, the text does not begin with white space.
  rw [dropTrailingSpaces_eq, skipSpaces_eq_self (by rwa [List.head?_reverse]),
    List.reverse_reverse]

/-- What is left does not end in white space. -/
theorem getLast?_dropTrailingSpaces (text : Bytes) :
    (dropTrailingSpaces text).getLast?.any isSpace = false := by
  -- The last byte of what is left is the first one, read from the end.
  rw [dropTrailingSpaces_eq, List.getLast?_reverse]
  exact head?_skipSpaces _

/-- A text is what is left and the white space behind it. -/
theorem exists_dropTrailingSpaces_append_blank (text : Bytes) :
    ∃ gap, Blank gap ∧ text = dropTrailingSpaces text ++ gap := by
  -- The gap is the one in front of the text read from its end.
  obtain ⟨gap, blank, cut⟩ := exists_blank_append_skipSpaces text.reverse
  refine ⟨gap.reverse, blank_reverse_iff.2 blank, ?_⟩
  rw [dropTrailingSpaces_eq, ← List.reverse_append, ← cut, List.reverse_reverse]

/-- Only the last part of a text loses white space, unless it is all white space. -/
theorem dropTrailingSpaces_append_of_not_blank (text : Bytes) {rest : Bytes}
    (filled : ¬Blank rest) :
    dropTrailingSpaces (text ++ rest) = text ++ dropTrailingSpaces rest := by
  -- Read from its end, the text has something in front of the first part.
  have filled : ¬Blank rest.reverse := fun blank => filled (blank_reverse_iff.1 blank)
  rw [dropTrailingSpaces_eq, dropTrailingSpaces_eq, List.reverse_append,
    skipSpaces_append_of_not_blank filled, List.reverse_append, List.reverse_reverse]

/-- The white space behind the last part of a text does not matter. -/
theorem dropTrailingSpaces_append_dropTrailingSpaces (front rest : Bytes) :
    dropTrailingSpaces (front ++ dropTrailingSpaces rest) = dropTrailingSpaces (front ++ rest) := by
  -- The gap that is dropped is put back, which makes no difference behind the text.
  obtain ⟨gap, blank, cut⟩ := exists_dropTrailingSpaces_append_blank rest
  calc dropTrailingSpaces (front ++ dropTrailingSpaces rest)
      = dropTrailingSpaces (front ++ dropTrailingSpaces rest ++ gap) :=
        (dropTrailingSpaces_append blank _).symm
    _ = dropTrailingSpaces (front ++ rest) := by rw [List.append_assoc, ← cut]

/-! ## At both ends -/

/-- White space in front does not matter. -/
theorem trim_blank_append {gap : Bytes} (blank : Blank gap) (text : Bytes) :
    trim (gap ++ text) = trim text := by
  -- The white space is skipped before anything else is done.
  rw [trim, skipSpaces_append blank, trim]

/-- White space behind does not matter. -/
theorem trim_append_blank {gap : Bytes} (blank : Blank gap) (text : Bytes) :
    trim (text ++ gap) = trim text := by
  rw [trim, trim]
  by_cases empty : Blank text
  · -- Nothing is left of white space, with more of it or without.
    rw [skipSpaces_append empty, skipSpaces_eq_nil_iff.2 empty, skipSpaces_eq_nil_iff.2 blank]
  · rw [skipSpaces_append_of_not_blank empty, dropTrailingSpaces_append blank]

/-- To drop the white space behind a text first does not change the trimmed text. -/
theorem trim_dropTrailingSpaces (text : Bytes) : trim (dropTrailingSpaces text) = trim text := by
  -- The gap that is dropped is put back, which makes no difference to trimming.
  obtain ⟨gap, blank, cut⟩ := exists_dropTrailingSpaces_append_blank text
  calc trim (dropTrailingSpaces text)
      = trim (dropTrailingSpaces text ++ gap) := (trim_append_blank blank _).symm
    _ = trim text := by rw [← cut]

/-- A text without white space at its ends is left as it is. -/
theorem trim_eq_self {text : Bytes} (starts : text.head?.any isSpace = false)
    (ends : text.getLast?.any isSpace = false) : trim text = text := by
  -- Neither end has anything to be cut off.
  rw [trim, skipSpaces_eq_self starts, dropTrailingSpaces_eq_self ends]

/-- A text without white space is left as it is. -/
theorem trim_eq_self_of_forall {text : Bytes} (solid : ∀ byte ∈ text, isSpace byte = false) :
    trim text = text := by
  -- Both the first byte and the last one are bytes of the text.
  refine trim_eq_self ?_ ?_
  · exact (Option.any_eq_false _ _).2 fun byte first => solid byte (List.mem_of_head? first)
  · exact (Option.any_eq_false _ _).2 fun byte last => solid byte (List.mem_of_getLast? last)

/-- A text is the trimmed text between white space. -/
theorem exists_blank_append_trim_append_blank (text : Bytes) :
    ∃ gap gap', Blank gap ∧ Blank gap' ∧ text = gap ++ (trim text ++ gap') := by
  -- The white space in front is skipped first, and then the one behind what is left.
  obtain ⟨gap, blank, cut⟩ := exists_blank_append_skipSpaces text
  obtain ⟨gap', blank', cut'⟩ := exists_dropTrailingSpaces_append_blank (skipSpaces text)
  exact ⟨gap, gap', blank, blank', by rw [trim, ← cut', ← cut]⟩

/-- A trimmed text does not begin with white space. -/
theorem head?_trim (text : Bytes) : (trim text).head?.any isSpace = false := by
  have starts := head?_skipSpaces text
  obtain ⟨gap, -, cut⟩ := exists_dropTrailingSpaces_append_blank (skipSpaces text)
  rw [trim]
  -- Dropping white space behind keeps the first byte, unless nothing is left.
  cases kept : dropTrailingSpaces (skipSpaces text) with
  | nil => rfl
  | cons byte rest =>
    rw [cut, kept] at starts
    exact starts

/-- A trimmed text does not end in white space. -/
theorem getLast?_trim (text : Bytes) : (trim text).getLast?.any isSpace = false :=
  -- Trimming ends with dropping the white space behind.
  getLast?_dropTrailingSpaces _

/-- A trimmed text is left as it is. -/
@[simp] theorem trim_trim (text : Bytes) : trim (trim text) = trim text :=
  -- Neither of its ends is white space any more.
  trim_eq_self (head?_trim text) (getLast?_trim text)

/-- Nothing is left of a text that is trimmed exactly if it is white space. -/
theorem trim_eq_nil_iff {text : Bytes} : trim text = [] ↔ Blank text := by
  rw [trim, dropTrailingSpaces_eq_nil_iff]
  constructor
  · intro blank
    -- If what is left is white space, so is the text, as the rest of it was skipped.
    obtain ⟨gap, blankGap, cut⟩ := exists_blank_append_skipSpaces text
    rw [cut, blank_append_iff]
    exact ⟨blankGap, blank⟩
  · intro blank
    simp [skipSpaces_eq_nil_iff.2 blank]

end TableStore
