import Mathlib.Data.Option.Basic
import TableStore.Proofs.Token
import TableStore.Statement.Parse

/-!
White space around a statement, and the semicolon behind it. Main statement: a text is read, or
refused, as it is without them.
-/

namespace TableStore

variable {text rest ending : Bytes}

/-- An ending that may follow a text: it adds no second semicolon. -/
structure Padding (text ending : Bytes) : Prop where
  isEnding : Ending ending
  single : semicolon ∈ ending → (dropTrailingSpaces text).getLast? ≠ some semicolon

/-- What may follow a text may follow the end of the text. -/
theorem Padding.suffix (padding : Padding text ending) (suffix : rest <:+ text) :
    Padding rest ending := by
  refine ⟨padding.isEnding, fun among => ?_⟩
  obtain ⟨front, rfl⟩ := suffix
  -- A text of white space ends in no semicolon, and any other one ends as the whole does.
  by_cases blank : Blank rest
  · rw [dropTrailingSpaces_eq_nil_iff.2 blank]
    simp
  · have kept : dropTrailingSpaces rest ≠ [] := dropTrailingSpaces_eq_nil_iff.not.2 blank
    have single := padding.single among
    rwa [dropTrailingSpaces_append_of_not_blank front blank, List.getLast?_append_of_ne_nil _ kept]
      at single

/-- What is done behind a token is done in front of the same padding. -/
theorem Padding.bind_congr {β : Type} {read : Option Bytes} {next other : Bytes → Option β}
    (padding : Padding text ending) (suffix : ∀ {rest}, read = some rest → rest <:+ text)
    (same : ∀ rest, Padding rest ending → next rest = other rest) :
    read.bind next = read.bind other :=
  -- The padding is still behind the rest, since the rest is the end of the text.
  Option.bind_congr fun rest found => same rest (padding.suffix (suffix found))

/-- What is done with a token and the text behind it is done in front of the same padding. -/
theorem Padding.bind_congr_pair {α β : Type} {read : Option (α × Bytes)}
    {next other : α × Bytes → Option β} (padding : Padding text ending)
    (suffix : ∀ {token rest}, read = some (token, rest) → rest <:+ text)
    (same : ∀ token rest, Padding rest ending → next (token, rest) = other (token, rest)) :
    read.bind next = read.bind other :=
  -- The rest is the second part of what is found, and the end of the text.
  Option.bind_congr fun found isFound => same found.1 found.2 (padding.suffix (suffix isFound))

/-- A semicolon stands in the ending or in the padding, but not in both. -/
theorem Padding.dropEnd_append (padding : Padding text ending) :
    Token.dropEnd (text ++ ending) = Token.dropEnd text := by
  obtain ⟨own, isOwn, cut, solid⟩ := Token.exists_dropEnd_append text
  have both : Ending (own ++ ending) := by
    by_cases among : semicolon ∈ ending
    · have unended := padding.single among
      cases isOwn with
      | spaces blank => exact padding.isEnding.blank_append blank
      | @semicolon gap last blank blankLast =>
        -- The text would end in the semicolon of its own ending.
        have filled : ¬Blank (semicolon :: last) := fun blank =>
          absurd (blank semicolon List.mem_cons_self) (by decide)
        have kept : dropTrailingSpaces (semicolon :: last) = [semicolon] :=
          dropTrailingSpaces_append blankLast [semicolon]
        rw [cut, ← List.append_assoc, dropTrailingSpaces_append_of_not_blank _ filled, kept,
          List.getLast?_concat] at unended
        exact absurd rfl unended
    · exact isOwn.append_blank (padding.isEnding.blank among)
  have longer := Token.dropEnd_append both (Token.getLast?_dropEnd text)
    fun ends => List.mem_append_left ending (solid ends)
  rwa [← List.append_assoc, ← cut] at longer

/-- A statement may end in front of the padding exactly if it may behind it. -/
theorem Padding.isAtEnd_append (padding : Padding text ending) :
    Token.isAtEnd (text ++ ending) = Token.isAtEnd text := by
  -- Whether it may end is whether nothing is left without the ending.
  rw [Bool.eq_iff_iff, Token.isAtEnd_iff, Token.isAtEnd_iff, ← Token.dropEnd_eq_nil_iff,
    ← Token.dropEnd_eq_nil_iff, padding.dropEnd_append]

/-- A value is read without the padding. -/
theorem Padding.value?_append (padding : Padding text ending) :
    Token.value? (text ++ ending) =
      (Token.value? text).map fun (token, rest) => (token, rest ++ ending) := by
  by_cases blank : Blank text
  · -- Neither a blank text nor an ending holds a value.
    rw [Token.value?_eq_none (padding.isEnding.blank_append blank),
      Token.value?_eq_none (.spaces blank)]
    rfl
  · have filled : skipSpaces text ≠ [] := skipSpaces_eq_nil_iff.not.2 blank
    obtain ⟨first, behind, cut⟩ := List.exists_cons_of_ne_nil filled
    have kept : skipSpaces (text ++ ending) = first :: (behind ++ ending) := by
      rw [skipSpaces_append_of_not_blank blank, cut, List.cons_append]
    by_cases quoted : isQuote first = true
    · have outside : first ∉ ending := by
        intro among
        simp [padding.isEnding.isQuote among] at quoted
      by_cases closed : first ∈ behind
      · obtain ⟨inside, rest, rfl, absent⟩ := List.eq_append_cons_of_mem closed
        rw [List.append_assoc, List.cons_append] at kept
        rw [Token.value?_quoted quoted absent kept, Token.value?_quoted quoted absent cut]
        rfl
      · have absent : first ∉ behind ++ ending := by simp [closed, outside]
        rw [Token.value?_open quoted absent kept, Token.value?_open quoted closed cut]
        rfl
    · have bare : (skipSpaces text).head?.any isQuote = false := by simp [cut, quoted]
      have bareLong : (skipSpaces (text ++ ending)).head?.any isQuote = false := by
        simp [kept, quoted]
      have same := (padding.suffix (skipSpaces_suffix text)).dropEnd_append
      rw [Token.value?_bare bare, Token.value?_bare bareLong,
        skipSpaces_append_of_not_blank blank, same]
      obtain ⟨own, -, whole, -⟩ := Token.exists_dropEnd_append (skipSpaces text)
      split
      · rfl
      · have fits : (Token.dropEnd (skipSpaces text)).length ≤ (skipSpaces text).length := by
          conv => rhs; rw [whole]
          simp
        simp [List.drop_append_of_le_length fits]

namespace Condition

/-- A column is read in front of the padding, which is left with what stands behind the column. -/
theorem readColumn?_append (isEnding : Ending ending) (text : Bytes) :
    readColumn? (text ++ ending) =
      (readColumn? text).map fun (column, rest) => (column, rest ++ ending) := by
  -- The first name is there whether or not the column is qualified.
  simp only [readColumn?, Token.identifier?_append isEnding, Option.bind_eq_bind]
  cases Token.identifier? text with
  | none => rfl
  | some token =>
    obtain ⟨name, rest⟩ := token
    simp only [Option.map_some, Option.bind_some,
      Token.symbol?_append period (by decide) rfl isEnding]
    -- A second name is read only if a period follows the first.
    cases Token.symbol? period rest with
    | none => rfl
    | some rest =>
      simp only [Option.map_some, Token.identifier?_append isEnding]
      cases Token.identifier? rest <;> rfl

/-- What stands behind a column is the end of the text. -/
theorem readColumn?_suffix {column : Bytes} (read : readColumn? text = some (column, rest)) :
    rest <:+ text := by
  simp only [readColumn?, Option.bind_eq_bind, Option.bind_eq_some_iff, Prod.exists] at read
  obtain ⟨name, behind, readName, read⟩ := read
  have suffix := Token.identifier?_suffix readName
  -- The rest is that of the only name, or that of the one behind the period.
  cases readSymbol : Token.symbol? period behind with
  | none =>
    simp only [readSymbol, Option.pure_def, Option.some.injEq, Prod.mk.injEq] at read
    exact read.2 ▸ suffix
  | some qualified =>
    simp only [readSymbol, Option.bind_eq_some_iff, Prod.exists, Option.pure_def,
      Option.some.injEq, Prod.mk.injEq] at read
    obtain ⟨other, behind, readOther, -, rfl⟩ := read
    exact (Token.identifier?_suffix readOther).trans <|
      (Token.symbol?_suffix readSymbol).trans suffix

/-- A condition is read without the padding. -/
theorem read?_append (padding : Padding text ending) :
    read? (text ++ ending) =
      (read? text).map fun (condition, rest) => (condition, rest ++ ending) := by
  have isEnding := padding.isEnding
  simp only [read?, readColumn?_append isEnding, Option.bind_eq_bind, Option.bind_map,
    Option.map_bind, Function.comp_def,
    Token.symbol?_append equalsSign (by decide) rfl isEnding]
  -- The value is read in front of the same padding as the text.
  refine padding.bind_congr_pair readColumn?_suffix fun column behindColumn padding => ?_
  refine padding.bind_congr Token.symbol?_suffix fun behindEquals padding => ?_
  rw [padding.value?_append, Option.bind_map]
  refine padding.bind_congr_pair Token.value?_suffix fun token rest padding => ?_
  cases compound : isCompound token <;> simp [compound]

/-- What stands behind a condition is the end of the text. -/
theorem read?_suffix {condition : Condition} (read : read? text = some (condition, rest)) :
    rest <:+ text := by
  -- The three tokens each leave an end of what they are read from.
  simp only [read?, Option.bind_eq_bind, Option.bind_eq_some_iff, Prod.exists, Option.pure_def,
    Option.some.injEq, Prod.mk.injEq] at read
  obtain ⟨column, _, readColumn, _, readEquals, token, _, readValue, _, -, -, rfl⟩ := read
  exact (Token.value?_suffix readValue).trans
    ((Token.symbol?_suffix readEquals).trans (readColumn?_suffix readColumn))

/-- Nothing but a condition and the end of the statement is read, with the padding or without. -/
theorem readClause?_append (padding : Padding text ending) :
    readClause? (text ++ ending) = readClause? text := by
  have isEnding := padding.isEnding
  simp only [readClause?, Token.keyword?_append "WHERE" (by decide) isEnding]
  cases readWord : Token.keyword? "WHERE" text with
  | none => simp [padding.isAtEnd_append]
  | some behindWord =>
    -- What follows the word is read in front of the same padding.
    have padded := padding.suffix (Token.keyword?_suffix readWord)
    simp only [Option.map_some, read?_append padded]
    cases read : read? behindWord with
    | none => rfl
    | some clause =>
      have atEnd := (padded.suffix (read?_suffix read)).isAtEnd_append
      simp [atEnd]

end Condition

/-! ## White space in front -/

section Front

variable {gap : Bytes}

/-- A keyword is read behind any white space. -/
theorem Token.keyword?_blank_append (blank : Blank gap) (word text : Bytes) :
    keyword? word (gap ++ text) = keyword? word text := by
  -- The white space is skipped before the keyword is looked for.
  rw [keyword?, skipSpaces_append blank, keyword?]

/-- The kind of a statement does not depend on the white space in front of it. -/
theorem StatementKind.ofText?_blank_append (blank : Blank gap) (text : Bytes) :
    ofText? (gap ++ text) = ofText? text := by
  -- A word that tells a join is not in the white space, and does not run out of it.
  have joins : hasWord "JOIN" (gap ++ text) = hasWord "JOIN" text :=
    (blank.free (by decide)).hasWord_append (by decide) blank.seam
  simp only [ofText?, Token.keyword?_blank_append blank, joins]

/-- A statement is read behind any white space. -/
theorem Statement.parse_blank_append (blank : Blank gap) (text : Bytes) :
    parse (gap ++ text) = parse text := by
  have same : ∀ kind, parseAs kind (gap ++ text) = parseAs kind text := by
    intro kind
    -- Each kind of statement is read by its leading word first.
    cases kind <;> simp only [parseAs, TableDefinition.parse, TableDefinition.readBody?,
      Insertion.parse, Insertion.read?, Selection.parse, Selection.read?, Join.parse, Join.read?,
      Projection.readHead?, Update.parse, Update.readHead?, Deletion.parse, Deletion.read?,
      Token.keyword?_blank_append blank]
  simp only [parse, StatementKind.ofText?_blank_append blank, same]

end Front

/-! ## Endings behind -/

/-- A cut at a word is the same in front of the padding, which stays behind it. -/
theorem Ending.splitAtWord?_append (isEnding : Ending ending) (word : Bytes)
    (isWord : isIdentifier word = true) (text : Bytes) :
    splitAtWord? word (text ++ ending) =
      (splitAtWord? word text).map fun (before, after) => (before, after ++ ending) := by
  simp only [splitAtWord?, isEnding.findWord_append isWord]
  cases found : findWord word text 0 with
  | none => rfl
  | some offset =>
    -- What is found lies in front of the ending.
    have fits : offset ≤ text.length := by
      have within := lt_of_findWordFrom_eq_some found
      omega
    simp [List.splitAt_eq, List.take_append_of_le_length fits, List.drop_append_of_le_length fits]

/-- What stands behind a cut is the end of the text. -/
theorem splitAtWord?_suffix {word before after : Bytes}
    (cut : splitAtWord? word text = some (before, after)) : after <:+ text := by
  -- The cut is made at an offset, and what is behind it is dropped to there.
  obtain ⟨offset, -, same⟩ := Option.map_eq_some_iff.1 cut
  rw [List.splitAt_eq] at same
  exact (Prod.mk.inj same).2 ▸ List.drop_suffix offset text

/-- A byte that an ending does not hold cuts a text where it did. -/
theorem splitAtLast?_append {separator : UInt8} (absent : separator ∉ ending) (text : Bytes) :
    splitAtLast? separator (text ++ ending) =
      (splitAtLast? separator text).map fun (before, after) => (before, after ++ ending) := by
  cases cut : splitAtLast? separator text with
  | none =>
    rw [Option.map_none, splitAtLast?_eq_none_iff, List.mem_append]
    exact not_or.2 ⟨splitAtLast?_eq_none_iff.1 cut, absent⟩
  | some parts =>
    obtain ⟨before, after⟩ := parts
    obtain ⟨rfl, absentAfter⟩ := splitAtLast?_eq_some_iff.1 cut
    -- The last separator is still the last one.
    refine splitAtLast?_eq_some_iff.2 ⟨by simp, ?_⟩
    rw [List.mem_append]
    exact not_or.2 ⟨absentAfter, absent⟩

/-- What stands behind the last separator is the end of the text. -/
theorem splitAtLast?_suffix {separator : UInt8} {before after : Bytes}
    (cut : splitAtLast? separator text = some (before, after)) : after <:+ text :=
  -- The text is put together of the front, the separator and the rest.
  ⟨before ++ [separator], by simp [(splitAtLast?_eq_some_iff.1 cut).1]⟩

namespace StatementKind

/-- The kind of a statement does not depend on the padding. -/
theorem ofText?_append (isEnding : Ending ending) (text : Bytes) :
    ofText? (text ++ ending) = ofText? text := by
  have joins : hasWord "JOIN" (text ++ ending) = hasWord "JOIN" text := by
    rw [hasWord, isEnding.findWord_append (by decide), hasWord]
  -- A leading word is read in front of the padding, and so is the one behind it.
  have first : ∀ word, isIdentifier word = true →
      (Token.keyword? word (text ++ ending)).isSome = (Token.keyword? word text).isSome := by
    intro word isWord
    rw [Token.keyword?_append word isWord isEnding, Option.isSome_map]
  have second : ∀ word next, isIdentifier word = true → isIdentifier next = true →
      ((Token.keyword? word (text ++ ending)).bind (Token.keyword? next)).isSome =
        ((Token.keyword? word text).bind (Token.keyword? next)).isSome := by
    intro word next isWord isNext
    rw [Token.keyword?_append word isWord isEnding, Option.bind_map]
    cases Token.keyword? word text with
    | none => rfl
    | some rest => simp [Token.keyword?_append next isNext isEnding]
  simp only [ofText?, joins, first "SELECT" (by decide), first "UPDATE" (by decide),
    second "CREATE" "TABLE" (by decide) (by decide),
    second "INSERT" "INTO" (by decide) (by decide),
    second "DELETE" "FROM" (by decide) (by decide)]

end StatementKind

/-- A table definition is read without the padding. -/
theorem TableDefinition.readBody?_append (padding : Padding text ending) :
    readBody? (text ++ ending) = readBody? text := by
  have isEnding := padding.isEnding
  simp only [readBody?, Option.bind_eq_bind, Option.bind_map, Function.comp_def,
    Token.keyword?_append "CREATE" (by decide) isEnding,
    Token.keyword?_append "TABLE" (by decide) isEnding,
    Token.identifier?_append isEnding,
    Token.symbol?_append openParenthesis (by decide) rfl isEnding,
    splitAtLast?_append isEnding.closeParenthesis_notMem]
  -- Each token leaves the padding to what follows, up to the end of the statement.
  refine padding.bind_congr Token.keyword?_suffix fun behindCreate padding => ?_
  refine padding.bind_congr Token.keyword?_suffix fun behindTable padding => ?_
  refine padding.bind_congr_pair Token.identifier?_suffix fun table behindName padding => ?_
  refine padding.bind_congr Token.symbol?_suffix fun behindOpen padding => ?_
  refine padding.bind_congr_pair splitAtLast?_suffix fun body rest padding => ?_
  simp only [padding.isAtEnd_append]

/-- An insertion is read without the padding. -/
theorem Insertion.read?_append (padding : Padding text ending) :
    read? (text ++ ending) = read? text := by
  -- Every token is read in front of the padding, the closing parenthesis among them.
  have isEnding := padding.isEnding
  simp only [read?, Option.bind_eq_bind, Option.bind_map, Function.comp_def,
    Token.keyword?_append "INSERT" (by decide) isEnding,
    Token.keyword?_append "INTO" (by decide) isEnding,
    Token.identifier?_append isEnding,
    Token.keyword?_append "VALUES" (by decide) isEnding,
    Token.symbol?_append openParenthesis (by decide) rfl isEnding,
    splitAtLast?_append isEnding.closeParenthesis_notMem]
  -- Token by token, what is left is an end of the text in front of the padding.
  refine padding.bind_congr Token.keyword?_suffix fun behindInsert padding => ?_
  refine padding.bind_congr Token.keyword?_suffix fun behindInto padding => ?_
  refine padding.bind_congr_pair Token.identifier?_suffix fun table behindName padding => ?_
  refine padding.bind_congr Token.keyword?_suffix fun behindValues padding => ?_
  refine padding.bind_congr Token.symbol?_suffix fun behindOpen padding => ?_
  refine padding.bind_congr_pair splitAtLast?_suffix fun body rest padding => ?_
  -- The row must be the last thing in the statement but for its ending.
  simp only [padding.isAtEnd_append]

namespace Projection

/-- The head of a query is read in front of the padding, which is left with what is behind it. -/
theorem readHead?_append (isEnding : Ending ending) (text : Bytes) :
    readHead? (text ++ ending) =
      (readHead? text).map fun (projection, rest) => (projection, rest ++ ending) := by
  -- The list is cut off at the next word, which the padding does not contain.
  simp only [readHead?, Option.bind_eq_bind, Option.bind_map, Option.map_bind, Function.comp_def,
    Token.keyword?_append "SELECT" (by decide) isEnding,
    isEnding.splitAtWord?_append "FROM" (by decide),
    Token.keyword?_append "FROM" (by decide) isEnding, Option.pure_def, Option.map_some]

/-- What stands behind the head of a query is the end of the text. -/
theorem readHead?_suffix {projection : Projection}
    (read : readHead? text = some (projection, rest)) : rest <:+ text := by
  -- The list lies between the two words, and the rest stands behind the second.
  simp only [readHead?, Option.bind_eq_bind, Option.bind_eq_some_iff, Prod.exists, Option.pure_def,
    Option.some.injEq, Prod.mk.injEq] at read
  obtain ⟨_, readSelect, _, _, cut, _, _, _, readFrom, -, rfl⟩ := read
  exact (Token.keyword?_suffix readFrom).trans <| (splitAtWord?_suffix cut).trans <|
    Token.keyword?_suffix readSelect

end Projection

/-- A query on one table is read without the padding. -/
theorem Selection.read?_append (padding : Padding text ending) :
    read? (text ++ ending) = read? text := by
  have isEnding := padding.isEnding
  -- Both the head and the table are read in front of the padding.
  simp only [read?, Option.bind_eq_bind, Option.bind_map, Function.comp_def,
    Projection.readHead?_append isEnding, Token.identifier?_append isEnding]
  refine padding.bind_congr_pair Projection.readHead?_suffix fun projection behindHead padding => ?_
  refine padding.bind_congr_pair Token.identifier?_suffix fun table rest padding => ?_
  -- What is left is the clause, which may end with the padding.
  simp only [Condition.readClause?_append padding]

namespace JoinCondition

/-- A column with its table is read in front of the padding. -/
theorem readColumn?_append (isEnding : Ending ending) (text : Bytes) :
    readColumn? (text ++ ending) =
      (readColumn? text).map fun (table, column, rest) => (table, column, rest ++ ending) := by
  -- Each of its three tokens is.
  simp only [readColumn?, Option.bind_eq_bind, Option.bind_map, Option.map_bind, Function.comp_def,
    Token.identifier?_append isEnding,
    Token.symbol?_append period (by decide) rfl isEnding, Option.pure_def,
    Option.map_some]

/-- What stands behind a column with its table is the end of the text. -/
theorem readColumn?_suffix {table column : Bytes}
    (read : readColumn? text = some (table, column, rest)) : rest <:+ text := by
  -- Each of its three tokens leaves an end of what it is read from.
  simp only [readColumn?, Option.bind_eq_bind, Option.bind_eq_some_iff, Prod.exists,
    Option.pure_def, Option.some.injEq, Prod.mk.injEq] at read
  obtain ⟨_, _, readTable, _, readPeriod, _, _, readName, -, -, rfl⟩ := read
  exact (Token.identifier?_suffix readName).trans <| (Token.symbol?_suffix readPeriod).trans <|
    Token.identifier?_suffix readTable

/-- The columns that a join compares are read in front of the padding. -/
theorem read?_append (isEnding : Ending ending) (text : Bytes) :
    read? (text ++ ending) =
      (read? text).map fun (condition, rest) => (condition, rest ++ ending) := by
  -- There is the equals sign between two columns with their tables.
  simp only [read?, Option.bind_eq_bind, Option.bind_map, Option.map_bind, Function.comp_def,
    readColumn?_append isEnding,
    Token.symbol?_append equalsSign (by decide) rfl isEnding, Option.pure_def,
    Option.map_some]

/-- What stands behind the columns that a join compares is the end of the text. -/
theorem read?_suffix {condition : JoinCondition} (read : read? text = some (condition, rest)) :
    rest <:+ text := by
  -- Both columns leave an end of what they are read from, and so does the sign.
  simp only [read?, Option.bind_eq_bind, Option.bind_eq_some_iff, Prod.exists,
    Option.pure_def, Option.some.injEq, Prod.mk.injEq] at read
  obtain ⟨_, _, _, readLeft, _, readEquals, _, _, _, readRight, -, rfl⟩ := read
  exact (readColumn?_suffix readRight).trans <| (Token.symbol?_suffix readEquals).trans <|
    readColumn?_suffix readLeft

end JoinCondition

/-- A query on two tables is read without the padding. -/
theorem Join.read?_append (padding : Padding text ending) :
    read? (text ++ ending) = read? text := by
  have isEnding := padding.isEnding
  -- A word that may be left out is skipped, or not, in front of the padding.
  have inner : ∀ rest : Bytes, (Token.keyword? "INNER" (rest ++ ending)).getD (rest ++ ending) =
      (Token.keyword? "INNER" rest).getD rest ++ ending := by
    intro rest
    rw [Token.keyword?_append "INNER" (by decide) isEnding]
    exact Option.getD_map (· ++ ending) rest _
  simp only [read?, Option.bind_eq_bind, Option.bind_map, Function.comp_def,
    Projection.readHead?_append isEnding, Token.identifier?_append isEnding, inner,
    Token.keyword?_append "JOIN" (by decide) isEnding,
    Token.keyword?_append "ON" (by decide) isEnding,
    JoinCondition.read?_append isEnding]
  refine padding.bind_congr_pair Projection.readHead?_suffix fun projection behindHead padding => ?_
  refine padding.bind_congr_pair Token.identifier?_suffix fun left behindLeft padding => ?_
  have skipped : (Token.keyword? "INNER" behindLeft).getD behindLeft <:+ behindLeft := by
    cases readInner : Token.keyword? "INNER" behindLeft with
    | none => exact List.suffix_refl _
    | some behindInner => exact Token.keyword?_suffix readInner
  have padding := padding.suffix skipped
  refine padding.bind_congr Token.keyword?_suffix fun behindJoin padding => ?_
  refine padding.bind_congr_pair Token.identifier?_suffix fun right behindRight padding => ?_
  refine padding.bind_congr Token.keyword?_suffix fun behindOn padding => ?_
  refine padding.bind_congr_pair JoinCondition.read?_suffix fun on rest padding => ?_
  simp only [Condition.readClause?_append padding]

/-- A deletion is read without the padding. -/
theorem Deletion.read?_append (padding : Padding text ending) :
    read? (text ++ ending) = read? text := by
  have isEnding := padding.isEnding
  -- The two words and the table are read in front of the padding.
  simp only [read?, Option.bind_eq_bind, Option.bind_map, Function.comp_def,
    Token.keyword?_append "DELETE" (by decide) isEnding,
    Token.keyword?_append "FROM" (by decide) isEnding,
    Token.identifier?_append isEnding]
  refine padding.bind_congr Token.keyword?_suffix fun behindDelete padding => ?_
  refine padding.bind_congr Token.keyword?_suffix fun behindFrom padding => ?_
  refine padding.bind_congr_pair Token.identifier?_suffix fun table rest padding => ?_
  -- What is left is the clause, which may end with the padding.
  simp only [Condition.readClause?_append padding]

/-- The parts of a clause are trimmed before they are read as assignments. -/
theorem Assignment.mapM_parse_eq (parts : List Bytes) :
    parts.mapM parse = (parts.map trim).mapM parse := by
  -- A part is trimmed once more when it is read, which changes nothing.
  have unseen : parse ∘ trim = parse := by
    funext item
    simp only [Function.comp_apply, parse, trim_trim]
  rw [List.mapM_map, unseen]

/-- Clauses that differ in the white space around them hold the same assignments. -/
theorem Assignment.mapM_parse_congr {clause other : Bytes} (same : trim clause = trim other) :
    (splitOutsideQuotes comma clause).mapM parse = (splitOutsideQuotes comma other).mapM parse := by
  -- Only the first and the last part have the white space around the clause, and it is trimmed off.
  have parts : (splitOutsideQuotes comma clause).map trim =
      (splitOutsideQuotes comma other).map trim := by
    rw [← map_trim_splitOutsideQuotes_trim rfl, same, map_trim_splitOutsideQuotes_trim rfl]
  rw [mapM_parse_eq, parts, ← mapM_parse_eq]

namespace Update

/-- A semicolon behind a text is all that trimming leaves of the padding. -/
theorem exists_trim_append {gap last : Bytes} (blank : Blank gap) (blankLast : Blank last)
    (text : Bytes) :
    ∃ gap', Blank gap' ∧
      trim (text ++ (gap ++ semicolon :: last)) = (trim text ++ gap') ++ [semicolon] := by
  obtain ⟨front, behind, blankFront, blankBehind, cut⟩ :=
    exists_blank_append_trim_append_blank text
  have blank' : Blank (behind ++ gap) := blank_append_iff.2 ⟨blankBehind, blank⟩
  have trimmed : trim (text ++ (gap ++ semicolon :: last)) =
      trim (trim text ++ (behind ++ gap) ++ [semicolon]) := by
    have padded : text ++ (gap ++ semicolon :: last) =
        front ++ ((trim text ++ (behind ++ gap) ++ [semicolon]) ++ last) := by
      conv => lhs; rw [cut]
      simp
    rw [padded, trim_blank_append blankFront, trim_append_blank blankLast]
  -- Either nothing but the semicolon is left, or the text that was trimmed in front of it.
  rw [trimmed]
  cases kept : trim text with
  | nil =>
    refine ⟨[], blank_nil, ?_⟩
    rw [List.nil_append, trim_blank_append blank']
    rfl
  | cons byte rest =>
    refine ⟨behind ++ gap, blank', trim_eq_self ?_ ?_⟩
    · have starts := head?_trim text
      rw [kept] at starts
      exact starts
    · rw [List.getLast?_concat]
      rfl

/-- The padding adds nothing but white space to a SET clause. -/
theorem splitClause_append (padding : Padding text ending) :
    trim (splitClause (text ++ ending)).1 = trim (splitClause text).1 ∧
      Condition.readClause? (splitClause (text ++ ending)).2 =
        Condition.readClause? (splitClause text).2 := by
  simp only [splitClause, padding.isEnding.splitAtWord?_append "WHERE" (by decide)]
  cases cut : splitAtWord? "WHERE" text with
  | some parts =>
    have padded := padding.suffix (splitAtWord?_suffix cut)
    exact ⟨rfl, Condition.readClause?_append padded⟩
  | none =>
    -- The clause goes on to the end of the statement, from which the semicolon is taken.
    have unended := (padding.suffix (skipSpaces_suffix text)).single
    refine ⟨?_, rfl⟩
    cases padding.isEnding with
    | spaces blank => simp only [Option.map_none, trim_append_blank blank]
    | semicolon blank blankLast =>
      obtain ⟨gap, blankGap, trimmed⟩ := exists_trim_append blank blankLast text
      have single : (trim text).getLast? ≠ some semicolon := unended (by simp)
      simp only [Option.map_none, trimmed, List.getLast?_concat, if_true, List.dropLast_concat,
        if_neg single, trim_append_blank blankGap]

/-- What depends on the trimmed clause and the condition only is the same with the padding. -/
theorem map_readHead?_append {β : Type} {finish : Bytes × Bytes × Bytes → β}
    (padding : Padding text ending)
    (same : ∀ {table clause other rest behind}, trim clause = trim other →
      Condition.readClause? rest = Condition.readClause? behind →
        finish (table, clause, rest) = finish (table, other, behind)) :
    (readHead? (text ++ ending)).map finish = (readHead? text).map finish := by
  have isEnding := padding.isEnding
  -- The words and the table are read in front of the padding.
  simp only [readHead?, Option.bind_eq_bind, Option.map_bind, Option.bind_map, Function.comp_def,
    Token.keyword?_append "UPDATE" (by decide) isEnding, Token.identifier?_append isEnding,
    Token.keyword?_append "SET" (by decide) isEnding]
  refine padding.bind_congr Token.keyword?_suffix fun behindUpdate padding => ?_
  refine padding.bind_congr_pair Token.identifier?_suffix fun table behindName padding => ?_
  refine padding.bind_congr Token.keyword?_suffix fun behindSet padding => ?_
  -- What is left is cut into the clause and the condition, where the padding may go with either.
  obtain ⟨trimmed, read⟩ := splitClause_append padding
  simp only [trimmed, Option.pure_def, Option.map_some, same trimmed read]

/-- An update is read without the padding. -/
theorem parse_append (padding : Padding text ending) : parse (text ++ ending) = parse text := by
  -- The head decides what is read, and without one the text is refused.
  have decided : ∀ text, parse text = ((readHead? text).map fun (table, clause, rest) => do
      let assignments ← (splitOutsideQuotes comma clause).mapM Assignment.parse
      let condition ← StatementKind.update.expect (Condition.readClause? rest)
      return { table, assignments, condition }).getD (.error (.malformed .update)) := by
    intro text
    rw [parse]
    cases readHead? text <;> rfl
  rw [decided, decided, map_readHead?_append padding]
  intro table clause other rest behind trimmed read
  simp only [Assignment.mapM_parse_congr trimmed, read]

end Update

namespace Statement

/-- A statement of a known kind is read without the padding. -/
theorem parseAs_append (padding : Padding text ending) (kind : StatementKind) :
    parseAs kind (text ++ ending) = parseAs kind text := by
  -- Each kind is read by a reader of its own, which does not mind the padding.
  cases kind with
  | createTable =>
    simp only [parseAs, TableDefinition.parse, TableDefinition.readBody?_append padding]
  | insert => simp only [parseAs, Insertion.parse, Insertion.read?_append padding]
  | select => simp only [parseAs, Selection.parse, Selection.read?_append padding]
  | join => simp only [parseAs, Join.parse, Join.read?_append padding]
  | update => simp only [parseAs, Update.parse_append padding]
  | delete => simp only [parseAs, Deletion.parse, Deletion.read?_append padding]

/-- A statement is read without the padding. -/
theorem parse_append (padding : Padding text ending) : parse (text ++ ending) = parse text := by
  -- The kind is the same with the padding, and so is what a reader of this kind gives.
  simp only [parse, StatementKind.ofText?_append padding.isEnding, parseAs_append padding]

end Statement

/--
White space around a text, and one semicolon behind it, change neither the statement that is read
nor the cause for which a text is refused, which tells the status and the wording.
-/
theorem padding_changes_nothing (text : Bytes) {before after last : Bytes}
    (blankBefore : Blank before) (blankAfter : Blank after) (blankLast : Blank last) :
    Statement.parse (before ++ text ++ after) = Statement.parse text ∧
      ((dropTrailingSpaces text).getLast? ≠ some semicolon →
        Statement.parse (before ++ text ++ after ++ semicolon :: last) = Statement.parse text) := by
  constructor
  · -- White space alone is an ending without a semicolon.
    have padding : Padding text after := by
      refine ⟨.spaces blankAfter, fun among => ?_⟩
      exact absurd (blankAfter semicolon among) (by decide)
    rw [List.append_assoc, Statement.parse_blank_append blankBefore,
      Statement.parse_append padding]
  · intro unended
    have padding : Padding text (after ++ semicolon :: last) :=
      ⟨.semicolon blankAfter blankLast, fun _ => unended⟩
    rw [List.append_assoc, List.append_assoc, Statement.parse_blank_append blankBefore,
      Statement.parse_append padding]

/-- A quote that is left open goes on to the end of the statement, which is found all the same. -/
theorem padding_changes_nothing_open_quote :
    Statement.parse "\t UPDATE t SET a = 'b, c = 1 \n ;  " =
      Statement.parse "UPDATE t SET a = 'b, c = 1" ∧
      Statement.parse "UPDATE t SET a = 'b, c = 1" =
        .ok (.update ⟨"t", [⟨"a", .text "'b, c = 1"⟩], none⟩) := by
  -- The three paddings are white space, which is looked at byte by byte.
  have blank : Blank "\t " ∧ Blank " \n " ∧ Blank "  " := by decide +kernel
  obtain ⟨before, after, last⟩ := blank
  -- What is left is what is read without them.
  refine ⟨(padding_changes_nothing "UPDATE t SET a = 'b, c = 1" before after last).2 ?_, ?_⟩
  · decide +kernel
  · decide +kernel

end TableStore
