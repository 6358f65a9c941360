import TableStore.Proofs.Statement.Grammar

/-!
Searches for a word in written statements. Main statements: a language lacks a word if none of the
tokens that its texts are made of contains it, and a word behind tokens that leave no quoted run
open is found.
-/

namespace TableStore

namespace Grammar

/-- No text contains a word outside quoted runs. -/
def Lacks (word : Bytes) (language : Language UInt8) : Prop :=
  ∀ text ∈ language, hasWord word text = false

/-- Every text contains a word outside quoted runs. -/
def Contains (word : Bytes) (language : Language UInt8) : Prop :=
  ∀ text ∈ language, hasWord word text = true

/-- No text leaves a quoted run open. -/
def Balanced (language : Language UInt8) : Prop := ∀ text ∈ language, Closed text

variable {searched keyword name text : Bytes} {reserved : List Bytes}
  {first following : Language UInt8}

/-! ## Tokens -/

/-- A keyword is free of every other keyword. -/
theorem free_of_mem_word (isWord : isIdentifier keyword = true)
    (different : upper keyword ≠ upper searched) (written : text ∈ word keyword) :
    Free searched text :=
  -- However it is spelled, it is one word, and not the one that is searched.
  free_of_isIdentifier (isIdentifier_of_upper_eq isWord written)
    (Eq.trans_ne written different)

/-- A name is free of every reserved word. -/
theorem free_of_mem_identifier (among : searched ∈ reserved)
    (written : text ∈ identifier reserved name) : Free searched text := by
  -- The grammar keeps names apart from the reserved words.
  obtain ⟨rfl, isName, other⟩ := written
  exact free_of_isIdentifier isName (other searched among)

/-- A qualified name is free of every reserved word. -/
theorem free_of_mem_member {table column : Bytes} (isWord : isIdentifier searched = true)
    (among : searched ∈ reserved) (written : text ∈ member reserved table column) :
    Free searched text := by
  simp only [member, mul_assoc] at written
  obtain ⟨_, isTable, _, isBehind, rfl⟩ := Language.mem_mul.1 written
  obtain ⟨before, blankBefore, _, isQualified, rfl⟩ := Language.mem_mul.1 isBehind
  obtain ⟨_, rfl, _, isPadded, rfl⟩ := Language.mem_mul.1 isQualified
  obtain ⟨after, blankAfter, _, isColumn, rfl⟩ := Language.mem_mul.1 isPadded
  -- The period belongs to no word, so that none goes over it.
  have freePeriod := (free_singleton isWord rfl rfl : Free searched [period])
  have freeColumn := (blankAfter.free isWord).append (free_of_mem_identifier among isColumn) isWord
    blankAfter.seam
  have freeBehind := (blankBefore.free isWord).append
    (freePeriod.append freeColumn isWord (.inl rfl)) isWord blankBefore.seam
  exact (free_of_mem_identifier among isTable).append freeBehind isWord
    (.inr (blankBefore.endsWord_append rfl))

/-- A reference to a column is free of every reserved word, qualified or not. -/
theorem free_of_mem_column (isWord : isIdentifier searched = true) (among : searched ∈ reserved)
    (written : text ∈ column reserved name) : Free searched text := by
  -- Either form of a reference is made of names.
  rcases (Language.mem_add _ _ _).1 written with plain | ⟨table, column, -, isMember⟩
  · exact free_of_mem_identifier among plain
  · exact free_of_mem_member isWord among isMember

/-! ## Texts that lack a word -/

/-- A word that is found neither in a token nor behind it is not found. -/
theorem Lacks.mul (isWord : isIdentifier searched = true)
    (free : ∀ text ∈ first, Free searched text)
    (seam : ∀ front ∈ first, ∀ rest ∈ following, Seam front rest)
    (lacks : Lacks searched following) : Lacks searched (first * following) := by
  rintro _ written
  obtain ⟨front, isFront, rest, isRest, rfl⟩ := Language.mem_mul.1 written
  -- No word lies across the seam of the two texts.
  rw [(free front isFront).hasWord_append isWord (seam front isFront rest isRest)]
  exact lacks rest isRest

/-- White space in front brings no word. -/
theorem Lacks.spaces_mul (isWord : isIdentifier searched = true)
    (lacks : Lacks searched following) : Lacks searched (spaces * following) :=
  -- Blank text holds no word, and none goes over its edge.
  .mul isWord (fun _ blank => Blank.free blank isWord) (fun _ blank _ _ => Blank.seam blank) lacks

/-- Required white space in front brings no word either. -/
theorem Lacks.gap_mul (isWord : isIdentifier searched = true)
    (lacks : Lacks searched following) : Lacks searched (gap * following) :=
  -- A gap is white space that is not empty.
  .mul isWord (fun _ isGap => isGap.1.free isWord) (fun _ isGap _ _ => isGap.1.seam) lacks

/-- A keyword in front brings no other keyword, if no word goes on behind it. -/
theorem Lacks.word_mul (isWord : isIdentifier searched = true)
    (isKeyword : isIdentifier keyword = true) (different : upper keyword ≠ upper searched)
    (apart : Apart following) (lacks : Lacks searched following) :
    Lacks searched (word keyword * following) :=
  -- What follows sets the keyword apart, so that no word goes over its edge.
  .mul isWord (fun _ => free_of_mem_word isKeyword different)
    (fun _ _ rest isRest => .inr (apart rest isRest)) lacks

/-- A name in front brings no reserved word, if no word goes on behind it. -/
theorem Lacks.identifier_mul (isWord : isIdentifier searched = true) (among : searched ∈ reserved)
    (apart : Apart following) (lacks : Lacks searched following) :
    Lacks searched (identifier reserved name * following) :=
  -- The same as for a keyword: what follows begins no word.
  .mul isWord (fun _ => free_of_mem_identifier among)
    (fun _ _ rest isRest => .inr (apart rest isRest)) lacks

/-- A reference to a column in front brings no reserved word, if no word goes on behind it. -/
theorem Lacks.column_mul (isWord : isIdentifier searched = true) (among : searched ∈ reserved)
    (apart : Apart following) (lacks : Lacks searched following) :
    Lacks searched (column reserved name * following) :=
  -- The last name of the reference is set apart by what follows.
  .mul isWord (fun _ => free_of_mem_column isWord among)
    (fun _ _ rest isRest => .inr (apart rest isRest)) lacks

/-- A symbol in front brings no word. -/
theorem Lacks.symbol_mul (isWord : isIdentifier searched = true) {byte : UInt8}
    (outside : isWordByte byte = false) (unquoted : isQuote byte = false)
    (lacks : Lacks searched following) : Lacks searched (symbol byte * following) := by
  -- The symbol is no part of a word, on either side of the edge.
  refine .mul isWord ?_ ?_ lacks
  · rintro _ rfl
    exact free_singleton isWord outside unquoted
  · rintro _ rfl rest -
    exact .inl outside

/-- The end of a statement holds no word. -/
theorem lacks_ending (isWord : isIdentifier searched = true) : Lacks searched ending := by
  intro text written
  -- Everything at the end is white space or a semicolon, none of it part of a word.
  have none := findWordFrom_eq_none isWord fun _ => (mem_ending_iff.1 written).isWordByte
  rw [hasWord, findWord, none]
  rfl

/-- A compared value brings no reserved word up to the end of the statement. -/
theorem lacks_valueAndEnd (isWord : isIdentifier searched = true) (among : searched ∈ reserved)
    (value : Value) : Lacks searched (valueAndEnd reserved value) := by
  rintro _ written
  cases written with
  | quoted isRun closes =>
    -- Whatever stands within quotes is no word.
    obtain ⟨quote, isQuoted, absent, rfl⟩ := isRun
    rw [(free_quoted searched isQuoted absent).hasWord_append isWord
      (.inr (mem_ending_iff.1 closes).endsWord)]
    exact lacks_ending isWord _ closes
  | bare isBare closes =>
    -- A bare value holds no keyword, and the reserved words are among those it may not hold.
    rw [hasWord, (mem_ending_iff.1 closes).findWord_append isWord]
    exact isBare.single searched (List.mem_append_right compounding among)

/-- A clause lacks every word that its column and a bare value lack. -/
theorem lacks_clause (isWord : isIdentifier searched = true) (among : searched ∈ reserved)
    (different : upper "WHERE" ≠ upper searched) (condition : Option Condition) :
    Lacks searched (clause reserved condition) := by
  cases condition with
  | none => exact lacks_ending isWord
  | some found =>
    -- Token by token, from the white space in front of the word WHERE to the value.
    simp only [clause, condition, mul_assoc]
    exact .gap_mul isWord <| .word_mul isWord (by decide) different apart_gap_mul <|
      .gap_mul isWord <| .column_mul isWord among (apart_symbol_mul rfl) <| .spaces_mul isWord <|
      .symbol_mul isWord rfl rfl <| .spaces_mul isWord <| lacks_valueAndEnd isWord among _

/-! ## Texts that contain a word -/

/-- Texts that leave no run open leave none open together. -/
theorem Balanced.mul (balanced : Balanced first) (balancedRest : Balanced following) :
    Balanced (first * following) := by
  -- The second text begins where the first has closed what it opened.
  rintro _ written
  obtain ⟨front, isFront, rest, isRest, rfl⟩ := Language.mem_mul.1 written
  exact (balanced front isFront).append (balancedRest rest isRest)

/-- White space leaves no run open. -/
theorem balanced_spaces : Balanced spaces := fun _ blank => Blank.closed blank

/-- Required white space leaves no run open. -/
theorem balanced_gap : Balanced gap := fun _ isGap => isGap.1.closed

/-- A keyword leaves no run open, however it is spelled. -/
theorem balanced_word (isWord : isIdentifier keyword = true) : Balanced (word keyword) :=
  -- A word holds no quotes.
  fun _ written => closed_of_isIdentifier (isIdentifier_of_upper_eq isWord written)

/-- A name leaves no run open. -/
theorem balanced_identifier : Balanced (identifier reserved name) := by
  -- Names are words as well.
  rintro _ ⟨rfl, isName, -⟩
  exact closed_of_isIdentifier isName

/-- A word that is found behind a text that leaves no run open is found. -/
theorem Contains.mul (isWord : isIdentifier searched = true) (balanced : Balanced first)
    (apart : Apart following) (contains : Contains searched following) :
    Contains searched (first * following) := by
  -- The search goes on behind the front as if it began there.
  rintro _ written
  obtain ⟨front, isFront, rest, isRest, rfl⟩ := Language.mem_mul.1 written
  rw [hasWord_append (balanced front isFront) isWord (.inr (apart rest isRest)),
    contains rest isRest, Bool.or_true]

/-- A keyword behind white space is found, if no word goes on behind it. -/
theorem contains_gap_mul_word (isWord : isIdentifier searched = true) (apart : Apart following) :
    Contains searched (gap * (word searched * following)) := by
  rintro _ written
  obtain ⟨white, isGap, _, isBehind, rfl⟩ := Language.mem_mul.1 written
  obtain ⟨spelled, spells, rest, isRest, rfl⟩ := Language.mem_mul.1 isBehind
  -- The word is the first thing behind the white space.
  rw [(isGap.1.free isWord).hasWord_append isWord isGap.1.seam, hasWord,
    findWord_eq_zero isWord spells (apart rest isRest)]
  rfl

end Grammar

end TableStore
