import Mathlib.Data.List.Infix
import TableStore.Proofs.Quoted
import TableStore.Statement.Definition

/-!
Texts with parentheses. Main statement: a text whose parentheses match, and whose commas all stand
within them, is not cut, whatever follows it.
-/

namespace TableStore

variable {front rest text : Bytes}

/-- A text whose parentheses match and whose commas all stand within them. -/
structure Nested (text : Bytes) : Prop where
  matched : text.count closeParenthesis = text.count openParenthesis
  opened : ∀ before, before <+: text →
    before.count closeParenthesis ≤ before.count openParenthesis
  enclosed : ∀ before, before ++ [comma] <+: text →
    before.count closeParenthesis < before.count openParenthesis

/-- It is enough to look at the beginnings of the text. -/
instance : DecidablePred Nested := fun text => decidable_of_iff
  (text.count closeParenthesis = text.count openParenthesis ∧
    (∀ before ∈ text.inits, before.count closeParenthesis ≤ before.count openParenthesis) ∧
    ∀ before ∈ text.inits, before ++ [comma] <+: text →
      before.count closeParenthesis < before.count openParenthesis) <| by
  -- Every text that the condition is about is a beginning of the text.
  simp only [List.mem_inits]
  constructor
  · rintro ⟨matched, opened, enclosed⟩
    exact ⟨matched, opened, fun before isPrefix =>
      enclosed before ((List.prefix_append before [comma]).trans isPrefix) isPrefix⟩
  · rintro ⟨matched, opened, enclosed⟩
    exact ⟨matched, opened, fun before _ => enclosed before⟩

/-- A text that is not cut, whatever follows it. -/
def Unsplit (text : Bytes) : Prop :=
  ∀ rest, splitOutsideParentheses 0 (text ++ rest) =
    (splitOutsideParentheses 0 rest).modifyHead (text ++ ·)

/-- How many parentheses are open behind a byte. -/
def openAfter (depth : Nat) (byte : UInt8) : Nat :=
  if byte == openParenthesis then depth + 1
  else if byte == closeParenthesis then depth - 1
  else depth

/-- There is always a part. -/
theorem splitOutsideParentheses_ne_nil (depth : Nat) (text : Bytes) :
    splitOutsideParentheses depth text ≠ [] := by
  -- A cut opens a part, and any other byte joins the first part of the rest.
  fun_induction splitOutsideParentheses depth text with
  | case1 => simp
  | case2 => simp
  | case3 depth byte rest uncut deeper ih => simpa using ih

/-- A byte that is no comma, or stands within parentheses, belongs to the first part. -/
theorem splitOutsideParentheses_cons {depth : Nat} {byte : UInt8}
    (uncut : byte = comma → 0 < depth) (rest : Bytes) :
    splitOutsideParentheses depth (byte :: rest) =
      (splitOutsideParentheses (openAfter depth byte) rest).modifyHead (byte :: ·) := by
  -- The cut is made at a comma with no parenthesis open, and nowhere else.
  have passes : ¬(byte == comma && depth == 0) = true := by
    intro cut
    rw [Bool.and_eq_true, beq_iff_eq, beq_iff_eq] at cut
    exact absurd (uncut cut.1) (by omega)
  rw [splitOutsideParentheses, if_neg passes]
  rfl

/-- A byte opens or closes as many parentheses as are counted in it. -/
theorem openAfter_add_count {depth : Nat} {byte : UInt8}
    (positive : byte = closeParenthesis → 0 < depth) (text : Bytes) :
    openAfter depth byte + text.count openParenthesis + (byte :: text).count closeParenthesis =
      depth + (byte :: text).count openParenthesis + text.count closeParenthesis := by
  have different : openParenthesis ≠ closeParenthesis := by decide
  rw [openAfter, List.count_cons, List.count_cons]
  by_cases opens : byte = openParenthesis
  · simp [opens, different]
    omega
  · by_cases closes : byte = closeParenthesis
    · -- One parenthesis is open that the byte can close.
      have within := positive closes
      simp [closes, different.symm]
      omega
    · simp [opens, closes]

/--
A text that closes no more parentheses than are open, and has no comma where none is, belongs to
the first part of what follows it.
-/
theorem splitOutsideParentheses_append {depth : Nat}
    (opened : ∀ before, before <+: text →
      before.count closeParenthesis ≤ depth + before.count openParenthesis)
    (enclosed : ∀ before, before ++ [comma] <+: text →
      before.count closeParenthesis < depth + before.count openParenthesis) (rest : Bytes) :
    splitOutsideParentheses depth (text ++ rest) =
      (splitOutsideParentheses
        (depth + text.count openParenthesis - text.count closeParenthesis) rest).modifyHead
        (text ++ ·) := by
  induction text generalizing depth with
  | nil =>
    obtain ⟨part, parts, cut⟩ :=
      List.exists_cons_of_ne_nil (splitOutsideParentheses_ne_nil depth rest)
    simp [cut]
  | cons byte text ih =>
    have uncut : byte = comma → 0 < depth := by
      rintro rfl
      simpa using enclosed [] (by simp)
    have positive : byte = closeParenthesis → 0 < depth := by
      rintro rfl
      have different : closeParenthesis ≠ openParenthesis := by decide
      have within := opened [closeParenthesis] (by simp)
      simp only [List.count_singleton_self, List.count_singleton, beq_false_of_ne different,
        Bool.false_eq_true, if_false, Nat.add_zero] at within
      omega
    -- Behind the byte, as many are open as the byte leaves.
    have balance := openAfter_add_count positive
    have others := @ih (openAfter depth byte)
      (by
        intro before isPrefix
        have within := opened (byte :: before) (List.cons_prefix_cons.2 ⟨rfl, isPrefix⟩)
        have same := balance before
        omega)
      (by
        intro before isPrefix
        have within := enclosed (byte :: before) (List.cons_prefix_cons.2 ⟨rfl, isPrefix⟩)
        have same := balance before
        omega)
    have deep : openAfter depth byte + text.count openParenthesis - text.count closeParenthesis =
        depth + (byte :: text).count openParenthesis - (byte :: text).count closeParenthesis := by
      have same := balance text
      omega
    rw [List.cons_append, splitOutsideParentheses_cons uncut, others, deep,
      List.modifyHead_modifyHead]
    rfl

/-- A text whose parentheses match leaves none open. -/
theorem Nested.unsplit (nested : Nested text) : Unsplit text := by
  intro rest
  -- What is opened and closed is the same number, so that the rest is cut from the same depth on.
  have opened := nested.opened
  have enclosed := nested.enclosed
  rw [splitOutsideParentheses_append (by simpa using opened) (by simpa using enclosed) rest,
    nested.matched, Nat.add_sub_cancel]

/-- A text without parentheses and commas is not cut. -/
theorem unsplit_of_forall (plain : ∀ byte ∈ text, byte ≠ openParenthesis ∧
    byte ≠ closeParenthesis ∧ byte ≠ comma) : Unsplit text := by
  -- What does not occur in the text occurs in none of its beginnings.
  have absent : ∀ {before : Bytes} {byte : UInt8}, before <+: text → byte ∉ text →
      before.count byte = 0 := fun isPrefix outside =>
    List.count_eq_zero.2 fun among => outside (isPrefix.subset among)
  have noOpen : openParenthesis ∉ text := fun among => (plain _ among).1 rfl
  have noClose : closeParenthesis ∉ text := fun among => (plain _ among).2.1 rfl
  -- With all counts zero, each requirement is one about zero, and the one on commas is empty.
  apply Nested.unsplit
  refine ⟨?_, fun before isPrefix => ?_, fun before isPrefix => ?_⟩
  · rw [absent List.prefix_rfl noOpen, absent List.prefix_rfl noClose]
  · rw [absent isPrefix noOpen, absent isPrefix noClose]
  · exact absurd rfl (plain comma (isPrefix.subset (by simp))).2.2

/-- Texts that are not cut are not cut together. -/
theorem Unsplit.append (unsplit : Unsplit front) (unsplitRest : Unsplit rest) :
    Unsplit (front ++ rest) := by
  intro behind
  -- Both texts are put in front of the first part, the second one before the first.
  rw [List.append_assoc, unsplit, unsplitRest, List.modifyHead_modifyHead]
  congr 1
  funext part
  exact (List.append_assoc front rest part).symm

/-- A text that is not cut is the only part of itself. -/
theorem Unsplit.whole (unsplit : Unsplit text) : splitOutsideParentheses 0 text = [text] := by
  -- Behind the text there is only the empty part that the text is put in front of.
  have alone := unsplit []
  rw [List.append_nil] at alone
  rw [alone]
  simp [splitOutsideParentheses]

/-- A text is cut at a comma behind what is not cut. -/
theorem Unsplit.splitOutsideParentheses_append_comma (unsplit : Unsplit text) (rest : Bytes) :
    splitOutsideParentheses 0 (text ++ comma :: rest) =
      text :: splitOutsideParentheses 0 rest := by
  -- The comma comes at the depth zero, and ends the part that the text is put into.
  rw [unsplit]
  simp [splitOutsideParentheses]

/-- White space is not cut. -/
theorem Blank.unsplit (blank : Blank text) : Unsplit text := by
  apply unsplit_of_forall
  intro byte among
  have white := blank byte among
  -- None of the three bytes is white space.
  refine ⟨?_, ?_, ?_⟩ <;> rintro rfl <;> exact absurd white (by decide)

/-- A name is not cut. -/
theorem unsplit_of_isIdentifier (isName : isIdentifier text = true) : Unsplit text := by
  apply unsplit_of_forall
  intro byte among
  have wordByte := isWordByte_of_mem isName among
  -- None of the three bytes belongs to a word.
  refine ⟨?_, ?_, ?_⟩ <;> rintro rfl <;> exact absurd wordByte (by decide)

end TableStore
