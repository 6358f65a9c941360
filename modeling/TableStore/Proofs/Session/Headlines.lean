import TableStore.Proofs.OneLine
import TableStore.Session.Transcript

/-!
What a session prints, read back line by line. Main statements: the headlines of an output are those
of its parts one after another; a prompt has none, and a line has at most itself.
-/

namespace TableStore

/-- A line without the prompts in front of it; a blank line of input leaves only its prompt. -/
def withoutPrompts (line : Bytes) : Bytes :=
  -- Several prompts stand in a row where lines of the input print nothing.
  if _more : prompt.isPrefixOf line then withoutPrompts (line.drop prompt.length) else line
termination_by line.length
decreasing_by
  -- The prompt is not empty, so that a line gets shorter without it.
  have short := (List.isPrefixOf_iff_prefix.1 _more).length_le
  have positive : 0 < prompt.length := by decide
  rw [List.length_drop]
  omega

/-- Whether a line tells how a statement ended. -/
def isHeadline (line : Bytes) : Bool :=
  (utf8 "OK: ").isPrefixOf line || (utf8 "Error [").isPrefixOf line

/-- Whether a text begins with another byte than a prompt and the two kinds of headlines. -/
def beginsApart : Bytes → Bool
  | [] => false
  | first :: _ => [prompt, "OK: ", "Error ["].all (·.head? != some first)

/-- The lines of an output that tell how a statement ended. -/
def headlines (output : Bytes) : List Bytes :=
  ((splitWhere (· == lineFeed) output).map withoutPrompts).filter isHeadline

/-- The line that tells how a statement ended, and with which message. -/
def Reply.headline (reply : Reply) : Bytes :=
  if reply.isSuccess then utf8 "OK: " ++ reply.message
  else utf8 "Error [" ++ reply.status.name ++ utf8 "]: " ++ reply.message

/-- An output has certain headlines, and what follows it has its own. -/
def Prints (output : Bytes) (found : List Bytes) : Prop :=
  ∀ rest, headlines (output ++ rest) = found ++ headlines rest

variable {line output : Bytes} {found : List Bytes}

/-! ## Lines -/

/-- A line without a prompt in front of it is left as it is. -/
theorem withoutPrompts_of_unprompted (unprompted : prompt.isPrefixOf line = false) :
    withoutPrompts line = line := by
  -- The test for a prompt fails at once.
  rw [withoutPrompts, dif_neg (by simp [unprompted])]

/-- One prompt more or less makes no difference. -/
theorem withoutPrompts_prompt_append (line : Bytes) :
    withoutPrompts (prompt ++ line) = withoutPrompts line := by
  -- The prompt in front is there for certain, and is taken off.
  have more : prompt.isPrefixOf (prompt ++ line) = true :=
    List.isPrefixOf_iff_prefix.2 (List.prefix_append ..)
  rw [withoutPrompts, dif_pos more, List.drop_left]

/-- A text that begins with another byte does not begin with a given one. -/
theorem isPrefixOf_of_head?_ne {part : Bytes} {first : UInt8} (begins : part ≠ [])
    (other : part.head? ≠ some first) (rest : Bytes) : part.isPrefixOf (first :: rest) = false := by
  -- The first bytes are compared first, and they differ.
  cases part with
  | nil => exact absurd rfl begins
  | cons byte part =>
    have different : (byte == first) = false := by simpa using other
    rw [List.isPrefixOf, different, Bool.false_and]

/-- What stands in front of the first line end belongs to the first line. -/
theorem splitWhere_append_of_oneLine (oneLine : OneLine line) (rest : Bytes) :
    splitWhere (· == lineFeed) (line ++ rest) =
      (splitWhere (· == lineFeed) rest).modifyHead (line ++ ·) := by
  -- The bytes of the line are passed one by one, and none of them cuts.
  induction line with
  | nil => cases pieces : splitWhere (· == lineFeed) rest <;> simp [pieces]
  | cons byte line ih =>
    obtain ⟨other, oneLine⟩ := oneLine_cons_iff.1 oneLine
    rw [List.cons_append, splitWhere, if_neg (by simpa using other), ih oneLine,
      List.modifyHead_modifyHead]
    rfl

/-! ## Outputs -/

namespace Prints

/-- Nothing that is printed has no headlines. -/
theorem nil : Prints [] [] := fun _ => rfl

/-- Headlines come in the order of the parts. -/
theorem append {other : Bytes} {others : List Bytes} (first : Prints output found)
    (second : Prints other others) : Prints (output ++ other) (found ++ others) := by
  -- Whatever comes behind, the first part gives its headlines before the second.
  intro rest
  rw [List.append_assoc, first, second, List.append_assoc]

/-- Parts without headlines make up a whole without. -/
theorem flatten {parts : List Bytes} (all : ∀ part ∈ parts, Prints part []) :
    Prints parts.flatten [] := by
  -- The parts are put together from the last one on.
  induction parts with
  | nil => exact nil
  | cons part parts ih =>
    obtain ⟨first, others⟩ := List.forall_mem_cons.1 all
    exact first.append (ih others)

/-- The headlines of a whole output. -/
theorem headlines_eq (prints : Prints output found) : headlines output = found := by
  -- Behind the whole output there is one empty line, which is no headline.
  have nothing : headlines [] = [] := by
    rw [headlines, splitWhere, List.map_singleton, withoutPrompts_of_unprompted (by decide)]
    decide
  have whole := prints []
  rwa [List.append_nil, nothing, List.append_nil] at whole

/-- A prompt is not seen on the line that it stands on. -/
theorem of_prompt : Prints prompt [] := by
  -- The first line of what follows gains the prompt, and loses it when it is read back.
  intro rest
  obtain ⟨first, others, pieces⟩ :=
    List.exists_cons_of_ne_nil (splitWhere_ne_nil (· == lineFeed) rest)
  have oneLine : OneLine prompt := by decide
  simp [headlines, splitWhere_append_of_oneLine oneLine, pieces, withoutPrompts_prompt_append]

/-- A line without a prompt is its own headline, if it is one. -/
theorem of_oneLine (oneLine : OneLine line) (unprompted : prompt.isPrefixOf line = false) :
    Prints (line ++ [lineFeed]) ([line].filter isHeadline) := by
  intro rest
  -- The line end cuts the line off from what comes behind.
  have cut : splitWhere (· == lineFeed) (line ++ lineFeed :: rest) =
      splitWhere (· == lineFeed) line ++ splitWhere (· == lineFeed) rest :=
    splitWhere_append (by decide) line rest
  -- Within the line nothing is cut, so that it is one piece.
  have whole : splitWhere (· == lineFeed) line = [line] :=
    splitWhere_eq_singleton fun byte among => by
      simpa using ne_of_mem_of_not_mem among oneLine
  rw [headlines, List.append_assoc, List.singleton_append, cut, whole, List.map_append,
    List.filter_append, List.map_singleton, withoutPrompts_of_unprompted unprompted, headlines]

/-- A headline on a line of its own is the only one of the line. -/
theorem of_isHeadline (oneLine : OneLine line) (unprompted : prompt.isPrefixOf line = false)
    (headed : isHeadline line = true) : Prints (line ++ [lineFeed]) [line] := by
  -- The line passes the test for headlines.
  have found : [line].filter isHeadline = [line] := by simp [headed]
  exact found ▸ of_oneLine oneLine unprompted

/-- A line that is no headline has none. -/
theorem of_not_isHeadline (oneLine : OneLine line) (unprompted : prompt.isPrefixOf line = false)
    (unheaded : isHeadline line = false) : Prints (line ++ [lineFeed]) [] := by
  -- The line fails the test for headlines.
  have nothing : [line].filter isHeadline = [] := by simp [unheaded]
  exact nothing ▸ of_oneLine oneLine unprompted

/-- A line that begins neither like a prompt nor like a headline has none. -/
theorem aside (oneLine : OneLine line) (apart : beginsApart line = true) :
    Prints (line ++ [lineFeed]) [] := by
  -- The first byte alone tells it from all three.
  cases line with
  | nil => simp [beginsApart] at apart
  | cons first rest =>
    simp only [beginsApart, List.all_cons, List.all_nil, Bool.and_true, Bool.and_eq_true,
      bne_iff_ne] at apart
    obtain ⟨noPrompt, noSuccess, noError⟩ := apart
    have unprompted := isPrefixOf_of_head?_ne (by decide) noPrompt rest
    refine of_not_isHeadline oneLine unprompted ?_
    rw [isHeadline, isPrefixOf_of_head?_ne (by decide) noSuccess,
      isPrefixOf_of_head?_ne (by decide) noError, Bool.or_false]

/-- A text is put between two others, the first of which tells that it is no headline. -/
theorem said {start inner close last : Bytes} (ends : close = last ++ [lineFeed])
    (apart : beginsApart start = true) (oneLine : OneLine (start ++ inner ++ last)) :
    Prints (start ++ inner ++ close) [] := by
  -- Whether a line begins apart is told by its first byte, which is that of the first text.
  have apart : beginsApart (start ++ inner ++ last) = true := by
    cases start with
    | nil => simp [beginsApart] at apart
    | cons first start => exact apart
  rw [ends, ← List.append_assoc]
  exact aside oneLine apart

end Prints

end TableStore
