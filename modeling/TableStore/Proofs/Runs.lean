import Mathlib.Data.List.Infix
import TableStore.Proofs.Spaces

/-!
The words of a text, which white space sets apart. Main statements: the words of two texts with
white space between them are those of both, and a part without white space occurs in a text exactly
if it occurs in one of its words.
-/

namespace TableStore

variable {part text : Bytes}

/-! ## Words -/

/-- There is always a piece. -/
theorem splitWhere_ne_nil (cuts : UInt8 → Bool) (text : Bytes) : splitWhere cuts text ≠ [] := by
  -- A cut opens a piece, and any other byte joins the first piece of the rest.
  fun_induction splitWhere cuts text with
  | case1 => simp
  | case2 => simp
  | case3 byte rest uncut ih => simpa using ih

/-- A text is cut at a byte that the test picks out, whatever stands on either side. -/
theorem splitWhere_append {cuts : UInt8 → Bool} {byte : UInt8} (cut : cuts byte = true)
    (front rest : Bytes) :
    splitWhere cuts (front ++ byte :: rest) = splitWhere cuts front ++ splitWhere cuts rest := by
  induction front with
  | nil => simp [splitWhere, cut]
  | cons other front ih =>
    rw [List.cons_append, splitWhere, splitWhere, ih]
    split
    · rfl
    · -- The other byte belongs to the first piece of what stands in front of the cut.
      obtain ⟨piece, pieces, same⟩ := List.exists_cons_of_ne_nil (splitWhere_ne_nil cuts front)
      rw [same]
      rfl

/-- A text in which the test picks out no byte is a single piece. -/
theorem splitWhere_eq_singleton {cuts : UInt8 → Bool} (uncut : ∀ byte ∈ text, cuts byte = false) :
    splitWhere cuts text = [text] := by
  -- Each byte joins the only piece of the bytes behind it.
  induction text with
  | nil => rfl
  | cons byte text ih =>
    have others := ih fun other among => uncut other (List.mem_cons_of_mem byte among)
    simp [splitWhere, uncut byte List.mem_cons_self, others]

/-- One byte of white space between two texts sets their words apart. -/
theorem words_append_cons {byte : UInt8} (white : isSpace byte = true) (front rest : Bytes) :
    words (front ++ byte :: rest) = words front ++ words rest := by
  -- The pieces are those of both texts, and none of them is added by the cut.
  rw [words, splitWhere_append white, List.filter_append, words, words]

/-- White space in front of a text adds no word to it. -/
theorem words_blank_append {gap : Bytes} (blank : Blank gap) (text : Bytes) :
    words (gap ++ text) = words text := by
  induction gap with
  | nil => rfl
  | cons byte gap ih =>
    obtain ⟨white, blank⟩ := blank_cons_iff.1 blank
    -- Nothing stands in front of the first white space.
    have nothing : words ([] ++ byte :: (gap ++ text)) = words [] ++ words (gap ++ text) :=
      words_append_cons white [] _
    rw [List.cons_append, ← ih blank]
    exact nothing

/-- White space behind a text adds no word to it. -/
theorem words_append_blank {gap : Bytes} (blank : Blank gap) (text : Bytes) :
    words (text ++ gap) = words text := by
  cases gap with
  | nil => rw [List.append_nil]
  | cons byte gap =>
    obtain ⟨white, blank⟩ := blank_cons_iff.1 blank
    -- Behind the first white space there is nothing but white space.
    have nothing : words (gap ++ []) = [] := words_blank_append blank []
    rw [List.append_nil] at nothing
    rw [words_append_cons white, nothing, List.append_nil]

/-- White space between two texts sets their words apart. -/
theorem words_append_gap {gap : Bytes} (blank : Blank gap) (nonempty : gap ≠ [])
    (front rest : Bytes) : words (front ++ (gap ++ rest)) = words front ++ words rest := by
  -- The first byte of the gap sets the words apart, and the others only add empty pieces.
  obtain ⟨byte, gap, rfl⟩ := List.exists_cons_of_ne_nil nonempty
  obtain ⟨white, blank⟩ := blank_cons_iff.1 blank
  rw [List.cons_append, words_append_cons white, words_blank_append blank]

/-- A text has the words that it has without the white space around it. -/
@[simp] theorem words_trim (text : Bytes) : words (trim text) = words text := by
  -- The text is itself without the white space, and white space on either side of that.
  obtain ⟨gap, gap', blank, blank', padded⟩ := exists_blank_append_trim_append_blank text
  calc words (trim text)
      = words (trim text ++ gap') := (words_append_blank blank' _).symm
    _ = words (gap ++ (trim text ++ gap')) := (words_blank_append blank _).symm
    _ = words text := by rw [← padded]

/-- A text without white space is a word, unless it is empty. -/
theorem words_eq_singleton (nonempty : text ≠ []) (solid : ∀ byte ∈ text, isSpace byte = false) :
    words text = [text] := by
  -- The text is one piece, which is kept since it is not empty.
  rw [words, splitWhere_eq_singleton solid]
  simp [nonempty]

/-! ## Capitals -/

/-- A letter case does not make white space of another byte. -/
theorem isSpace_upperByte (byte : UInt8) : isSpace (upperByte byte) = isSpace byte := by
  -- No byte of white space is a letter, and none becomes one.
  grind [isSpace, isLower, upperByte]

/-- A capital stays what it is. -/
theorem upperByte_upperByte (byte : UInt8) : upperByte (upperByte byte) = upperByte byte := by
  -- No capital is a small letter.
  grind [isLower, upperByte]

/-- A text in capitals has no small letters left. -/
@[simp] theorem upper_upper (text : Bytes) : upper (upper text) = upper text := by
  -- Both passes go over the bytes one by one.
  rw [upper, upper, List.map_map]
  exact List.map_congr_left fun byte _ => upperByte_upperByte byte

/-- The words of a text in capitals are its words in capitals. -/
theorem words_upper (text : Bytes) : words (upper text) = (words text).map upper := by
  have pieces : splitWhere isSpace (upper text) = (splitWhere isSpace text).map upper := by
    induction text with
    | nil => rfl
    | cons byte text ih =>
      rw [upper, List.map_cons, splitWhere, isSpace_upperByte, splitWhere, ← upper, ih]
      split
      · rfl
      · -- The first piece gets the capital of the byte.
        obtain ⟨piece, pieces, same⟩ := List.exists_cons_of_ne_nil (splitWhere_ne_nil isSpace text)
        rw [same]
        rfl
  rw [words, pieces, words, List.filter_map]
  -- A word in capitals is empty only if the word is.
  congr 2
  funext piece
  cases piece <;> rfl

/-! ## Parts -/

/-- A part occurs in a text exactly if it stands somewhere within it. -/
theorem occursIn_iff : occursIn part text = true ↔ part <:+: text := by
  -- The part stands at the first byte or within the rest.
  induction text with
  | nil => rw [occursIn, List.isEmpty_iff, List.infix_nil]
  | cons byte text ih =>
    rw [occursIn, Bool.or_eq_true, List.isPrefixOf_iff_prefix, ih, List.infix_cons_iff]

/-- A part does not go over a byte that it does not contain. -/
theorem infix_append_cons_iff {byte : UInt8} (absent : byte ∉ part) (front rest : Bytes) :
    part <:+: front ++ byte :: rest ↔ part <:+: front ∨ part <:+: rest := by
  constructor
  · -- The part lies in front of the byte, behind it, or across it, where it would contain it.
    intro within
    rcases List.infix_append_iff.1 within with before | behind | ⟨start, finish, rfl, ends, begins⟩
    · exact .inl before
    · rcases List.infix_cons_iff.1 behind with begins | later
      · rcases List.prefix_cons_iff.1 begins with rfl | ⟨others, rfl, -⟩
        · exact .inr (List.nil_infix)
        · exact absurd List.mem_cons_self absent
      · exact .inr later
    · -- What the part has behind the first text would begin with the byte.
      rcases List.prefix_cons_iff.1 begins with rfl | ⟨others, rfl, -⟩
      · rw [List.append_nil]
        exact .inl ends.isInfix
      · exact absurd (List.mem_append_right start List.mem_cons_self) absent
  · rintro (before | behind)
    · exact before.trans (List.prefix_append front _).isInfix
    · exact behind.trans ((List.suffix_cons byte rest).trans (List.suffix_append front _)).isInfix

/-- A part without white space occurs in a text exactly if it occurs in one of its words. -/
theorem infix_iff_exists_word (nonempty : part ≠ []) (solid : ∀ byte ∈ part, isSpace byte = false)
    (text : Bytes) : part <:+: text ↔ ∃ word ∈ words text, part <:+: word := by
  have whole : ∀ front : Bytes, (∀ byte ∈ front, isSpace byte = false) →
      (part <:+: front ↔ ∃ word ∈ words front, part <:+: word) := by
    intro front solidFront
    cases front with
    | nil => simp [words, splitWhere, nonempty]
    | cons byte front => simp [words_eq_singleton (List.cons_ne_nil byte front) solidFront]
  -- The text is cut at its first white space, in front of which there is at most one word.
  have general : ∀ front : Bytes, (∀ byte ∈ front, isSpace byte = false) →
      (part <:+: front ++ text ↔ ∃ word ∈ words (front ++ text), part <:+: word) := by
    induction text with
    | nil =>
      intro front solidFront
      rw [List.append_nil]
      exact whole front solidFront
    | cons byte text ih =>
      intro front solidFront
      by_cases white : isSpace byte = true
      · -- White space ends the word in front of it, and the part does not go over it.
        have absent : byte ∉ part := fun among => by simp [solid byte among] at white
        have behind : part <:+: text ↔ ∃ word ∈ words text, part <:+: word := ih [] (by simp)
        rw [infix_append_cons_iff absent, words_append_cons white, whole front solidFront, behind]
        simp only [List.mem_append, or_and_right, exists_or]
      · -- The byte goes on with the word in front of it.
        rw [List.append_cons front byte text]
        refine ih (front ++ [byte]) fun other among => ?_
        rcases List.mem_append.1 among with among | among
        · exact solidFront other among
        · obtain rfl := List.mem_singleton.1 among
          exact Bool.eq_false_iff.2 white
  exact general [] (by simp)

end TableStore
