import Mathlib.Logic.Function.Iterate
import TableStore.Proofs.OneLine
import TableStore.Proofs.Spaces
import TableStore.Session.Grid

/-!
Texts in a column. Main statements: the lines that a text is wrapped into fit the column, have all
its bytes but white space in order, and are found after no more passes than the text has bytes.
-/

namespace TableStore

variable {width : Nat} {text gap : Bytes}

/-! ## What is left without white space -/

/-- A text without its white space. -/
def solidOf (text : Bytes) : Bytes := text.filter fun byte => !isSpace byte

/-- What is left of two texts is left of each of them. -/
@[simp] theorem solidOf_append (front rest : Bytes) :
    solidOf (front ++ rest) = solidOf front ++ solidOf rest :=
  List.filter_append ..

/-- Nothing is left of a text exactly if it is white space. -/
theorem solidOf_eq_nil_iff : solidOf text = [] ↔ Blank text := by
  -- A byte is left out exactly if it is white space.
  simp [solidOf, Blank, List.filter_eq_nil_iff]

/-- What is left of joined texts is left of each of them. -/
theorem solidOf_flatMap {α : Type} (items : List α) (form : α → Bytes) :
    solidOf (items.flatMap form) = items.flatMap fun item => solidOf (form item) :=
  List.filter_flatMap

/-- The white space in front leaves nothing. -/
@[simp] theorem solidOf_skipSpaces (text : Bytes) : solidOf (skipSpaces text) = solidOf text := by
  obtain ⟨gap, blank, cut⟩ := exists_blank_append_skipSpaces text
  -- Nothing is left of the gap that is skipped.
  calc solidOf (skipSpaces text)
      = solidOf gap ++ solidOf (skipSpaces text) := by rw [solidOf_eq_nil_iff.2 blank]; rfl
    _ = solidOf text := by rw [← solidOf_append, ← cut]

/-- The white space behind leaves nothing. -/
@[simp] theorem solidOf_dropTrailingSpaces (text : Bytes) :
    solidOf (dropTrailingSpaces text) = solidOf text := by
  obtain ⟨gap, blank, cut⟩ := exists_dropTrailingSpaces_append_blank text
  -- Nothing is left of the gap that is dropped.
  calc solidOf (dropTrailingSpaces text)
      = solidOf (dropTrailingSpaces text) ++ solidOf gap := by
        rw [solidOf_eq_nil_iff.2 blank, List.append_nil]
    _ = solidOf text := by rw [← solidOf_append, ← cut]

/-- What becomes of line ends and tabs is white space, as they are. -/
@[simp] theorem solidOf_flattenText (text : Bytes) : solidOf (flattenText text) = solidOf text := by
  induction text with
  | nil => rfl
  | cons byte rest ih =>
    -- A byte becomes white space exactly if it is a line end or a tab.
    have shown : solidOf (flattenText [byte]) = solidOf [byte] := by
      rw [flattenText, List.flatMap_singleton]
      split_ifs with ends tab
      · rcases Bool.or_eq_true_iff.1 ends with isFeed | isReturn
        · rw [beq_iff_eq.1 isFeed]
          rfl
        · rw [beq_iff_eq.1 isReturn]
          rfl
      · rw [beq_iff_eq.1 tab]
        rfl
      · rfl
    calc solidOf (flattenText (byte :: rest))
        = solidOf (flattenText [byte]) ++ solidOf (flattenText rest) := by
          simp [flattenText]
      _ = solidOf (byte :: rest) := by
          rw [ih, shown, ← solidOf_append]
          rfl

/-- Spaces are white space. -/
theorem blank_spaces (count : Nat) : Blank (List.replicate count space) := by
  -- There is no other byte among them.
  intro byte among
  obtain rfl := List.eq_of_mem_replicate among
  rfl

/-- A text that fits is filled up with white space. -/
theorem solidOf_fitText (fits : text.length ≤ width) (toRight : Bool) :
    solidOf (fitText width toRight text) = solidOf text := by
  -- Nothing is cut off, and nothing is left of the padding.
  have padding := solidOf_eq_nil_iff.2 (blank_spaces (width - text.length))
  cases toRight <;> simp [fitText, List.take_of_length_le fits, padding]

/-! ## The first line -/

/-- A text is broken at its width or before. -/
theorem breakAt_le (width : Nat) (text : Bytes) : breakAt width text ≤ width := by
  -- The last space of what fits is within it, and without one the width itself is taken.
  unfold breakAt
  split
  · next before after cut =>
    have whole := congrArg List.length (splitAtLast?_eq_some_iff.1 cut).1
    simp only [List.length_take, List.length_append, List.length_cons] at whole
    omega
  · exact le_rfl

/-- The first line is what is taken up, but for white space behind it. -/
theorem solidOf_firstLine (width : Nat) (text : Bytes) :
    solidOf (firstLine width text).1 = solidOf (text.take (firstLine width text).2) := by
  -- Either the line is all that is taken up, or only white space is dropped from it.
  simp only [firstLine]
  split
  · rfl
  · exact solidOf_dropTrailingSpaces _

/-- The first line of a text is no longer than the column is wide. -/
theorem length_firstLine_le (width : Nat) (text : Bytes) :
    (firstLine width text).1.length ≤ width := by
  rw [firstLine]
  split_ifs
  · exact List.length_take_le ..
  · -- What is left of the text that fits is not longer.
    obtain ⟨gap, -, cut⟩ := exists_dropTrailingSpaces_append_blank (text.take (breakAt width text))
    have whole := congrArg List.length cut
    rw [List.length_append] at whole
    have taken := List.length_take_le (breakAt width text) text
    have fits := breakAt_le width text
    dsimp only
    omega

/-! ## All lines -/

/-- No line is wider than its column. -/
theorem length_le_of_mem_wrapText (positive : 0 < width) :
    ∀ line ∈ wrapText width text, line.length ≤ width := by
  -- The lines behind the first one are those of a shorter text.
  fun_induction wrapText width text with
  | case1 text fits => simpa using fits.resolve_left positive.ne'
  | case2 text long first rest ih =>
    refine List.forall_mem_cons.2 ⟨length_firstLine_le width text, ?_⟩
    split
    · simp
    · exact ih

/-- The lines together have all of a text but white space. -/
theorem solidOf_flatten_wrapText (width : Nat) (text : Bytes) :
    solidOf (wrapText width text).flatten = solidOf text := by
  fun_induction wrapText width text with
  | case1 text fits => simp
  | case2 text long first rest ih =>
    -- Of what follows the first line only white space is skipped.
    have others : solidOf (if rest.isEmpty then [] else wrapText width rest).flatten =
        solidOf (text.drop first.2) := by
      rw [← solidOf_skipSpaces (text.drop first.2)]
      split
      · next empty =>
        rw [show skipSpaces (text.drop first.2) = [] from List.isEmpty_iff.1 empty]
        rfl
      · exact ih
    calc solidOf (first.1 :: if rest.isEmpty then [] else wrapText width rest).flatten
        = solidOf (text.take first.2) ++ solidOf (text.drop first.2) := by
          rw [List.flatten_cons, solidOf_append, others, solidOf_firstLine]
      _ = solidOf text := by rw [← solidOf_append, List.take_append_drop]

/-! ## On one line -/

/-- A cell is shown without its line ends. -/
theorem oneLine_flattenText (text : Bytes) : OneLine (flattenText text) := by
  -- A line end would have come from one of the bytes, and none of them gives one.
  intro among
  obtain ⟨byte, -, shown⟩ := List.mem_flatMap.1 among
  split_ifs at shown with ends tab
  · exact absurd (List.mem_singleton.1 shown) (by decide)
  · exact absurd (List.eq_of_mem_replicate shown) (by decide)
  · obtain rfl := List.mem_singleton.1 shown
    simp at ends

/-- Spaces do not end a line. -/
theorem oneLine_spaces (count : Nat) : OneLine (List.replicate count space) :=
  oneLine_of_forall (fun _ among => beq_iff_eq.2 (List.eq_of_mem_replicate among))
    (by decide : (lineFeed == space) = false)

/-- A text that is cut or filled up has no new line ends. -/
theorem OneLine.fitText (oneLine : OneLine text) (width : Nat) (toRight : Bool) :
    OneLine (fitText width toRight text) := by
  -- The front of the text has none, and the padding has none.
  have front : OneLine (text.take width) := oneLine.of_subset (List.take_subset ..)
  cases toRight <;> simp [TableStore.fitText, front, oneLine_spaces]

/-- What is left in front of the white space behind has no other bytes than the text. -/
theorem dropTrailingSpaces_subset (text : Bytes) : dropTrailingSpaces text ⊆ text := by
  intro byte among
  -- Both the text and its reverse have the same bytes.
  exact List.mem_reverse.1 ((List.dropWhile_sublist _).subset (List.mem_reverse.1 among))

/-- The lines of a wrapped text are parts of it. -/
theorem subset_of_mem_wrapText {width : Nat} : ∀ line ∈ wrapText width text, line ⊆ text := by
  fun_induction wrapText width text with
  | case1 text fits => simp
  | case2 text long first rest ih =>
    -- The first line is cut out of the text, and the others out of what is left of it.
    have taken : first.1 ⊆ text := by
      have front : dropTrailingSpaces (text.take (breakAt width text)) ⊆ text :=
        fun _ among => List.take_subset _ _ (dropTrailingSpaces_subset _ among)
      simp only [first, firstLine]
      split
      · exact List.take_subset ..
      · exact front
    have left : rest ⊆ text := fun _ among =>
      List.drop_subset _ _ ((List.dropWhile_sublist _).subset among)
    intro line among
    rcases List.mem_cons.1 among with rfl | among
    · exact taken
    · split at among
      · simp at among
      · exact fun _ isIn => left (ih line among isIn)

/-- Any line of a wrapped text is on one line. -/
theorem OneLine.getD_wrapText (oneLine : OneLine text) (width number : Nat) :
    OneLine ((wrapText width text).getD number []) := by
  -- A row may be taller than the cell, which is then filled up with empty lines.
  rw [List.getD_eq_getElem?_getD]
  cases found : (wrapText width text)[number]? with
  | none => exact oneLine_nil
  | some line => exact oneLine.of_subset (subset_of_mem_wrapText line (List.mem_of_getElem? found))

/-! ## Passes -/

/-- The lines found so far and what is left of a text, before and after one more line is found. -/
def wrapPass (width : Nat) (found : List Bytes × Bytes) : List Bytes × Bytes :=
  let (lines, rest) := found
  -- Once nothing is left, the pass changes nothing more.
  if rest = [] then (lines, [])
  else if rest.length ≤ width then (lines ++ [rest], [])
  else
    -- The white space at the break belongs to neither line.
    let first := firstLine width rest
    (lines ++ [first.1], skipSpaces (rest.drop first.2))

/-- A text that does not fit is its first line and the lines of what follows. -/
theorem wrapText_of_long (positive : 0 < width) (long : width < text.length) :
    wrapText width text = (firstLine width text).1 ::
      if skipSpaces (text.drop (firstLine width text).2) = [] then []
      else wrapText width (skipSpaces (text.drop (firstLine width text).2)) := by
  -- The text is longer than the width, so that it is broken.
  rw [wrapText, dif_neg (by omega)]
  simp only [List.isEmpty_iff]

/-- Once nothing is left, more passes find nothing. -/
theorem iterate_wrapPass_nil (lines : List Bytes) (passes : Nat) :
    (wrapPass width)^[passes] (lines, []) = (lines, []) :=
  -- Nothing left is a fixed point of the pass.
  Function.iterate_fixed (by simp [wrapPass]) passes

/-- Every pass takes up some of the text, so that all is done after as many as it has bytes. -/
theorem iterate_wrapPass (positive : 0 < width) {passes : Nat} (enough : text.length ≤ passes)
    (lines : List Bytes) :
    (wrapPass width)^[passes] (lines, text) =
      (lines ++ (if text = [] then [] else wrapText width text), []) := by
  -- A pass leaves another text with more lines in front, so both stay quantified over.
  induction passes generalizing lines text with
  | zero =>
    obtain rfl := List.eq_nil_of_length_eq_zero (Nat.le_zero.1 enough)
    simp
  | succ passes ih =>
    rw [Function.iterate_succ_apply, wrapPass]
    dsimp only
    split_ifs with empty fits
    · rw [iterate_wrapPass_nil, List.append_nil]
    · rw [iterate_wrapPass_nil, wrapText, dif_pos (.inr fits)]
    · -- What is left is shorter, so that the passes that are left are enough for it.
      have taken := firstLine_pos positive text
      have left := length_skipSpaces_le (text.drop (firstLine width text).2)
      rw [List.length_drop] at left
      have shorter : (skipSpaces (text.drop (firstLine width text).2)).length ≤ passes := by omega
      rw [ih shorter, List.append_assoc, List.singleton_append,
        wrapText_of_long positive (Nat.lt_of_not_le fits)]

end TableStore
