import TableStore.Proofs.Statement.Selection

/-!
Queries on two tables that list columns, with any names. A column that is named like the word FROM
cuts its list short, and what is left of the list is no list. Main statement: whether such a query
is read, and with which condition, depends on its columns and on what stands behind the two columns
that it compares, but on neither of its tables.
-/

namespace TableStore

open Grammar
open Language (append_mem_mul)

variable {searched name text rest : Bytes} {names : List Bytes}

/-- Two texts together end the word in front of them if both do. -/
theorem EndsWord.append (ends : EndsWord text) (endsRest : EndsWord rest) :
    EndsWord (text ++ rest) := by
  -- The first text decides unless it is empty.
  cases text with
  | nil => exact endsRest
  | cons byte text => exact ends

/-- What is joined ends in one of the parts. -/
theorem exists_suffix_joinWith (separator : Bytes) {parts : List Bytes} (nonempty : parts ≠ []) :
    ∃ part ∈ parts, part <:+ joinWith separator parts := by
  -- The last part is that of the others, if there are any.
  induction parts with
  | nil => exact absurd rfl nonempty
  | cons part parts ih =>
    cases parts with
    | nil => exact ⟨part, List.mem_cons_self, by simp [joinWith]⟩
    | cons next parts =>
      obtain ⟨last, among, suffix⟩ := ih (List.cons_ne_nil next parts)
      refine ⟨last, List.mem_cons_of_mem part among, suffix.trans ?_⟩
      simp only [joinWith, List.intersperse_cons_cons, List.flatten_cons]
      exact (List.suffix_append _ _).trans (List.suffix_append part _)

namespace Grammar

/-- The start of a list of columns that breaks off where the name of one would begin. -/
inductive Hanging : Bytes → Prop
  | start {white : Bytes} (blank : Blank white) : Hanging white
  | behind {mark : UInt8} (isMark : mark ∈ [comma, period]) (front : Bytes) {white : Bytes}
      (blank : Blank white) : Hanging (front ++ mark :: white)

/-- No mark is of a word or white. -/
theorem mark_outside {mark : UInt8} (isMark : mark ∈ [comma, period]) :
    isWordByte mark = false ∧ isSpace mark = false := by
  -- There are only two marks.
  rcases List.mem_cons.1 isMark with rfl | isMark
  · exact ⟨rfl, rfl⟩
  · obtain rfl := List.mem_singleton.1 isMark
    exact ⟨rfl, rfl⟩

/-- The end of a list that breaks off breaks off there. -/
theorem Hanging.of_suffix (hanging : Hanging text) (suffix : rest <:+ text) : Hanging rest := by
  -- The cut falls behind the mark, on it, or in front of it.
  cases hanging with
  | start blank => exact .start fun byte among => blank byte (suffix.subset among)
  | @behind mark isMark front white blank =>
    rcases List.suffix_or_suffix_of_suffix suffix (List.suffix_append front _) with short | long
    · rcases List.suffix_cons_iff.1 short with rfl | short
      · exact .behind isMark [] blank
      · exact .start fun byte among => blank byte (short.subset among)
    · obtain ⟨middle, rfl⟩ := long
      exact .behind isMark middle blank

/-- More items in front of a list change nothing about its end. -/
theorem Hanging.item_append (hanging : Hanging text) (front : Bytes) :
    Hanging (front ++ comma :: text) := by
  -- The last mark is the one from before, or else the comma itself.
  cases hanging with
  | start blank => exact .behind List.mem_cons_self front blank
  | behind isMark middle blank =>
    have longer := Hanging.behind isMark (front ++ comma :: middle) blank
    rwa [List.append_assoc] at longer

/-- White space in front of a list that breaks off changes nothing about its end. -/
theorem Hanging.blank_append {white : Bytes} (hanging : Hanging text) (blank : Blank white) :
    Hanging (white ++ text) := by
  -- The last mark stays the last one.
  cases hanging with
  | start blankText => exact .start (blank_append_iff.2 ⟨blank, blankText⟩)
  | behind isMark front blankBehind =>
    rw [← List.append_assoc]
    exact .behind isMark (white ++ front) blankBehind

/-- No word runs out of a list that breaks off. -/
theorem Hanging.getLast? (hanging : Hanging text) : text.getLast?.any isWordByte = false := by
  -- The last byte is white space or the mark.
  rw [Option.any_eq_false]
  intro byte last
  cases hanging with
  | start blank => exact isWordByte_of_isSpace (blank byte (List.mem_of_getLast? last))
  | @behind mark isMark front white blank =>
    rw [List.getLast?_append_of_ne_nil _ (List.cons_ne_nil mark white)] at last
    rcases List.mem_cons.1 (List.mem_of_getLast? last) with rfl | among
    · exact (mark_outside isMark).1
    · exact isWordByte_of_isSpace (blank byte among)

/-- A list that breaks off ends in a comma or a period, but for white space, or is blank. -/
theorem Hanging.trim (hanging : Hanging text) :
    TableStore.trim text = [] ∨
      ∃ front, ∃ mark ∈ [comma, period], TableStore.trim text = front ++ [mark] := by
  -- Without the white space behind it, the mark is the last byte.
  cases hanging with
  | start blank => exact .inl (trim_eq_nil_iff.2 blank)
  | @behind mark isMark front white blank =>
    have solid := (mark_outside isMark).2
    have ends : ∀ front : Bytes, dropTrailingSpaces (front ++ [mark]) = front ++ [mark] :=
      fun front => dropTrailingSpaces_eq_self (by simpa using solid)
    refine .inr ?_
    rw [List.append_cons, trim_append_blank blank]
    -- In front of the mark there may be nothing to be left.
    by_cases nothing : Blank front
    · refine ⟨[], mark, isMark, ?_⟩
      rw [trim_blank_append nothing, trim_eq_self (by simpa using solid) (by simpa using solid)]
      rfl
    · refine ⟨skipSpaces front, mark, isMark, ?_⟩
      rw [TableStore.trim, skipSpaces_append_of_not_blank nothing, ends]

/-- A column ends in a word. -/
theorem getLast?_of_isColumnReference (isColumn : Projection.isColumnReference name = true) :
    name.getLast?.any isWordByte = true := by
  -- A name ends in one of its bytes, all of which are word bytes.
  have ofName : ∀ {name : Bytes}, isIdentifier name = true →
      name.getLast?.any isWordByte = true := by
    intro name isName
    rw [List.getLast?_eq_some_getLast (ne_nil_of_isIdentifier isName)]
    exact isWordByte_of_mem isName (List.getLast_mem _)
  unfold Projection.isColumnReference at isColumn
  -- The column stands behind the period if there is one, and is all there is if not.
  split at isColumn
  · exact ofName isColumn
  · next table column cut =>
    obtain ⟨rfl, -⟩ := splitAtFirst?_eq_some_iff.1 cut
    have isName := (Bool.and_eq_true_iff.1 isColumn).2
    rw [List.append_cons, List.getLast?_append_of_ne_nil _ (ne_nil_of_isIdentifier isName)]
    exact ofName isName

/-- What is left of a list that breaks off names no columns. -/
theorem Hanging.read?_eq_none (hanging : Hanging text) : Projection.read? text = none := by
  have several : TableStore.trim text ≠ utf8 "*" := by
    intro every
    rcases hanging.trim with nothing | ⟨front, mark, isMark, ends⟩
    · exact absurd (nothing.symm.trans every) (by decide)
    · -- Neither mark is an asterisk.
      have last := congrArg List.getLast? (ends.symm.trans every)
      rw [List.getLast?_concat] at last
      obtain rfl : mark = asterisk := Option.some.inj last
      exact absurd isMark (by decide)
  -- The last part of the list breaks off, too, so that it is no column.
  obtain ⟨part, among, suffix⟩ :=
    exists_suffix_joinWith [comma] (splitPlain_ne_nil comma none text)
  rw [joinWith_splitPlain] at suffix
  have unnamed : Projection.isColumnReference (TableStore.trim part) ≠ true := by
    intro isColumn
    have ends := getLast?_of_isColumnReference isColumn
    rcases (hanging.of_suffix suffix).trim with nothing | ⟨front, mark, isMark, trimmed⟩
    · simp [nothing] at ends
    · rw [trimmed, List.getLast?_concat, Option.any_some, (mark_outside isMark).1] at ends
      exact Bool.false_ne_true ends
  have refused : ((splitOutsideQuotes comma (TableStore.trim text)).map TableStore.trim).all
      Projection.isColumnReference = false := by
    rw [map_trim_splitOutsideQuotes_trim rfl]
    exact List.all_eq_false.2 ⟨_, List.mem_map_of_mem among, unnamed⟩
  simp [Projection.read?, several, refused]

/-! ## The first column with a reserved name -/

/-- A text contains a word where the name of a column would begin, and not before. -/
def BreaksAt (searched text : Bytes) : Prop :=
  ∃ before spelled after, text = before ++ (spelled ++ after) ∧ Hanging before ∧
    Free searched before ∧ upper spelled = upper searched ∧ EndsWord after

/-- What stands behind a text changes nothing about the first word in it. -/
theorem BreaksAt.append (breaks : BreaksAt searched text) (ends : EndsWord rest) :
    BreaksAt searched (text ++ rest) := by
  -- The word stands where it did, and the text behind it has only become longer.
  obtain ⟨before, spelled, after, rfl, hanging, free, spells, endsAfter⟩ := breaks
  exact ⟨before, spelled, after ++ rest, by simp, hanging, free, spells, endsAfter.append ends⟩

/-- A further item in front of a list that is free of the word changes nothing either. -/
theorem BreaksAt.item_append {front : Bytes} (isWord : isIdentifier searched = true)
    (freeFront : Free searched front) (breaks : BreaksAt searched text) :
    BreaksAt searched (front ++ comma :: text) := by
  -- Neither the item nor the comma has the word in it.
  obtain ⟨before, spelled, after, rfl, hanging, free, spells, ends⟩ := breaks
  have freeComma := (free_singleton isWord rfl rfl : Free searched [comma])
  refine ⟨front ++ comma :: before, spelled, after, by simp, hanging.item_append front, ?_, spells,
    ends⟩
  exact freeFront.append (freeComma.append free isWord (.inl rfl)) isWord (.inr rfl)

/-- White space in front of a list changes nothing either. -/
theorem BreaksAt.blank_append {white : Bytes} (isWord : isIdentifier searched = true)
    (blank : Blank white) (breaks : BreaksAt searched text) : BreaksAt searched (white ++ text) := by
  -- White space is free of every word.
  obtain ⟨before, spelled, after, rfl, hanging, free, spells, ends⟩ := breaks
  exact ⟨white ++ before, spelled, after, by simp, hanging.blank_append blank,
    (blank.free isWord).append free isWord blank.seam, spells, ends⟩

/-- The text in front of the first such word names no columns. -/
theorem BreaksAt.exists_splitAtWord? (isWord : isIdentifier searched = true)
    (breaks : BreaksAt searched text) :
    ∃ list rest, splitAtWord? searched text = some (list, rest) ∧ Projection.read? list = none := by
  -- The text is cut where the word stands, and what is in front of it breaks off.
  obtain ⟨before, spelled, after, rfl, hanging, free, spells, ends⟩ := breaks
  exact ⟨before, spelled ++ after, free.splitAtWord? isWord hanging.getLast? spells ends,
    hanging.read?_eq_none⟩

/-- A column with a reserved name breaks a list off. -/
theorem breaksAt_of_mem_listed (isWord : isIdentifier searched = true)
    (written : text ∈ listed [] name) (reserved : ¬Reference [searched] name) :
    BreaksAt searched text := by
  obtain ⟨isReference, before, after, blankBefore, blankAfter, rfl⟩ := exists_of_mem_listed written
  have unreserved : ∀ {name}, name ∈ identifier [] name → upper name ≠ upper searched →
      name ∈ identifier [searched] name := fun isName other =>
    ⟨rfl, isName.2.1, by simpa using other⟩
  -- A name that is not allowed is spelled like the word.
  cases isReference with
  | plain isName =>
    have spells : upper name = upper searched := by
      by_contra other
      exact reserved (.plain (unreserved isName other))
    exact ⟨before, name, after, rfl, .start blankBefore, blankBefore.free isWord, spells,
      blankAfter.endsWord⟩
  | @qualified table column isTable isColumn =>
    by_cases spellsTable : upper table = upper searched
    · -- The table comes first, so that its name may already be the word.
      have ends : EndsWord (period :: column ++ after) := rfl
      exact ⟨before, table, period :: column ++ after, by simp, .start blankBefore,
        blankBefore.free isWord, spellsTable, ends⟩
    · -- The name of the table is none, so that of the column is.
      have spells : upper column = upper searched := by
        by_contra other
        exact reserved (.qualified (unreserved isTable spellsTable) (unreserved isColumn other))
      have freeTable := free_of_isIdentifier isTable.2.1 spellsTable
      have freePeriod := (free_singleton isWord rfl rfl : Free searched [period])
      have free := (blankBefore.free isWord).append
        (freeTable.append freePeriod isWord (.inr rfl)) isWord blankBefore.seam
      have hanging : Hanging ((before ++ table) ++ [period]) :=
        .behind (by decide) (before ++ table) blank_nil
      rw [List.append_assoc] at hanging
      exact ⟨before ++ (table ++ [period]), column, after, by simp, hanging, free, spells,
        blankAfter.endsWord⟩

/-- The first column with a reserved name breaks a list off. -/
theorem breaksAt_of_mem_separated (isWord : isIdentifier searched = true)
    (written : text ∈ separated (listed []) names)
    (reserved : ∃ name ∈ names, ¬Reference [searched] name) : BreaksAt searched text := by
  -- Either the first item breaks the list off, or the items behind it do.
  fun_induction separated (listed []) names generalizing text with
  | case1 => exact absurd written (Language.notMem_zero text)
  | case2 name =>
    obtain ⟨_, among, reserved⟩ := reserved
    obtain rfl := List.mem_singleton.1 among
    exact breaksAt_of_mem_listed isWord written reserved
  | case3 name next names ih =>
    rw [mul_assoc] at written
    obtain ⟨front, isItem, _, isBehind, rfl⟩ := Language.mem_mul.1 written
    obtain ⟨_, rfl, rest, isRest, rfl⟩ := Language.mem_mul.1 isBehind
    by_cases allowed : Reference [searched] name
    · -- The item has no reserved name, and one behind it has.
      have free : Free searched front := by
        obtain ⟨-, before, after, blankBefore, blankAfter, rfl⟩ := exists_of_mem_listed isItem
        have within := free_of_mem_column isWord List.mem_cons_self allowed.mem_column
        exact within.padded isWord blankBefore blankAfter
      have behind : ∃ name ∈ next :: names, ¬Reference [searched] name := by
        simpa [allowed] using reserved
      exact (ih isRest behind).item_append isWord free
    · exact (breaksAt_of_mem_listed isWord isItem allowed).append rfl

/-- Items that may be written in more ways make lists that may be. -/
theorem separated_mono {α : Type} {item other : α → Language UInt8} {values : List α}
    (wider : ∀ value ∈ values, ∀ text ∈ item value, text ∈ other value)
    (written : text ∈ separated item values) : text ∈ separated other values := by
  -- The items are replaced one by one.
  fun_induction separated item values generalizing text with
  | case1 => exact absurd written (Language.notMem_zero text)
  | case2 value => exact wider value List.mem_cons_self text written
  | case3 value next values ih =>
    obtain ⟨_, isFront, rest, isRest, rfl⟩ := Language.mem_mul.1 written
    obtain ⟨front, isItem, mark, isMark, rfl⟩ := Language.mem_mul.1 isFront
    have isFirst := wider value List.mem_cons_self front isItem
    have isOthers := ih (fun value among => wider value (List.mem_cons_of_mem _ among)) isRest
    exact append_mem_mul (append_mem_mul isFirst isMark) isOthers

/-- A list leaves no quoted run open if its items leave none. -/
theorem balanced_separated {α : Type} {item : α → Language UInt8} {values : List α}
    (balanced : ∀ value, Balanced (item value)) : Balanced (separated item values) := by
  -- An item leaves no run open, and neither does the comma behind it.
  fun_induction separated item values with
  | case1 => exact fun text written => absurd written (Language.notMem_zero text)
  | case2 value => exact balanced value
  | case3 value next values ih =>
    refine ((balanced value).mul ?_).mul ih
    rintro _ rfl
    rfl

/-! ## Queries on two tables -/

/-- The written forms of a query on two tables that lists columns, with any text behind it. -/
def listing (columns : List Bytes) (left right : Bytes) (on : JoinCondition) (rest : Bytes) :
    Language UInt8 :=
  -- It ends with the rest, whatever that is, in the place of a condition.
  spaces * word "SELECT" * projection [] (.named columns) * word "FROM" * gap *
    identifier [] left * joined ⟨.named columns, left, right, on, none⟩ * {rest}

variable {columns : List Bytes} {left right : Bytes} {on : JoinCondition}

/-- A query is written with one blank between its words. -/
theorem append_mem_listing {list table column other otherColumn : Bytes}
    (isList : list ∈ separated (listed []) columns)
    (names : ∀ name ∈ [left, right, table, column, other, otherColumn], isIdentifier name = true) :
    utf8 "SELECT " ++ (list ++ (utf8 " FROM " ++ (left ++ (utf8 " JOIN " ++ (right ++
      (utf8 " ON " ++ (table ++ (period :: (column ++ (equalsSign :: (other ++
        (period :: (otherColumn ++ rest))))))))))))) ∈
      listing columns left right ⟨table, column, other, otherColumn⟩ rest := by
  -- There is one way of writing each token, with nothing between most of them.
  have nothing : utf8 "" ∈ spaces := blank_nil
  have gap : utf8 " " ∈ Grammar.gap := ⟨(by decide : Blank " "), by decide⟩
  have word : ∀ keyword : Bytes, keyword ∈ Grammar.word keyword := fun _ => rfl
  have mark : ∀ byte : UInt8, [byte] ∈ symbol byte := fun _ => rfl
  have plain : utf8 "" ∈ 1 + Grammar.word "INNER" * Grammar.gap := .inl rfl
  simp only [List.forall_mem_cons, List.not_mem_nil] at names
  obtain ⟨isLeft, isRight, isTable, isColumn, isOther, isOtherColumn, -⟩ := names
  have name : ∀ {name : Bytes}, isIdentifier name = true → name ∈ identifier [] name :=
    fun isName => ⟨rfl, isName, by simp⟩
  -- The tokens are put together from the left.
  have written := append_mem_mul nothing <| append_mem_mul (word "SELECT") <|
    append_mem_mul gap <| append_mem_mul isList <| append_mem_mul gap <|
    append_mem_mul (word "FROM") <| append_mem_mul gap <| append_mem_mul (name isLeft) <|
    append_mem_mul gap <| append_mem_mul plain <| append_mem_mul (word "JOIN") <|
    append_mem_mul gap <| append_mem_mul (name isRight) <| append_mem_mul gap <|
    append_mem_mul (word "ON") <| append_mem_mul gap <| append_mem_mul (name isTable) <|
    append_mem_mul nothing <| append_mem_mul (mark period) <| append_mem_mul nothing <|
    append_mem_mul (name isColumn) <| append_mem_mul nothing <| append_mem_mul (mark equalsSign) <|
    append_mem_mul nothing <| append_mem_mul (name isOther) <| append_mem_mul nothing <|
    append_mem_mul (mark period) <| append_mem_mul nothing <|
    append_mem_mul (name isOtherColumn) (Set.mem_singleton rest)
  simp only [listing, joined, comparison, member, projection, mul_assoc]
  exact written

/-- Behind its list of columns a query on two tables contains the word that tells a join. -/
theorem contains_listing : Contains "JOIN" (listing columns left right on rest) := by
  -- Neither the columns nor what is around them leave a quoted run open.
  have balanced : Balanced (projection [] (.named columns)) :=
    (balanced_gap.mul (balanced_separated fun _ _ isItem =>
      (uncut_of_mem_listed isItem).closed)).mul balanced_gap
  have balancedHead := (((balanced_spaces.mul (balanced_word (by decide : isIdentifier
    (utf8 "SELECT") = true))).mul balanced).mul (balanced_word (by decide : isIdentifier
    (utf8 "FROM") = true))).mul balanced_gap
  rw [listing, mul_assoc]
  -- The word stands behind the table, where no run is open.
  refine .mul (by decide) (balancedHead.mul balanced_identifier) ?_ (contains_joined _)
  simp only [joined, mul_assoc]
  exact apart_gap_mul

end Grammar

variable {columns : List Bytes} {left right : Bytes} {on : JoinCondition}

/-- Columns that are not named like the word FROM do not cut their list short. -/
theorem Join.read?_of_mem_listing (ends : EndsWord rest)
    (unreserved : ∀ name ∈ columns, Reference ["FROM"] name)
    (written : text ∈ listing columns left right on rest) :
    read? text = (Condition.readClause? rest).map (⟨.named columns, left, right, on, ·⟩) := by
  -- What stands behind the condition is fixed, and begins as it does.
  have apart : Apart ({rest} : Language UInt8) := by
    rintro _ rfl
    exact ends
  -- Since no column is named like the word, the list is one in which it is reserved.
  have wider : separated (listed []) columns ≤ separated (listed ["FROM"]) columns := by
    intro text isList
    refine separated_mono (fun name among item isItem => ?_) isList
    obtain ⟨-, before, after, blankBefore, blankAfter, rfl⟩ := exists_of_mem_listed isItem
    rw [← List.append_assoc]
    exact append_mem_mul
      (append_mem_mul blankBefore ⟨rfl, unreserved name among⟩) blankAfter
  -- The listing is the general form of a join with nothing behind it but the rest.
  have isJoin : listing columns left right on rest ≤ head [] (.named columns) * gap *
      identifier [] left * joined ⟨.named columns, left, right, on, none⟩ * {rest} := by
    simp only [listing, head, Grammar.projection]
    gcongr
  obtain ⟨_, rfl, read⟩ :=
    @exists_read? text {rest} ⟨.named columns, left, right, on, none⟩ apart (isJoin written)
  exact read

/-- A column that is named like the word FROM leaves a query unread. -/
theorem Join.read?_eq_none_of_mem_listing
    (reserved : ∃ name ∈ columns, ¬Reference ["FROM"] name)
    (written : text ∈ listing columns left right on rest) : read? text = none := by
  simp only [listing, mul_assoc] at written
  -- The reader gets over the first word, and then looks for the second one.
  obtain ⟨_, isListed, readSelect⟩ := exists_keyword? (by decide) apart_projection_mul written
  simp only [Grammar.projection, mul_assoc] at isListed
  obtain ⟨white, isGap, _, isPadded, rfl⟩ := Language.mem_mul.1 isListed
  obtain ⟨list, isList, behind, isBehind, rfl⟩ := Language.mem_mul.1 isPadded
  -- The list is cut off in front of the first such name.
  have isWord : isIdentifier (utf8 "FROM") = true := by decide
  have breaks := (breaksAt_of_mem_separated isWord isList reserved).append
    (apart_gap_mul behind isBehind)
  obtain ⟨cutOff, _, cut, unread⟩ := (breaks.blank_append isWord isGap.1).exists_splitAtWord? isWord
  simp [read?, Projection.readHead?, readSelect, cut, unread]

/--
Whether a query on two tables that lists columns is read, and with which condition, depends on its
columns and on the text behind the columns that it compares.
-/
theorem Statement.exists_parse_listing (columns : List Bytes) (ends : EndsWord rest) :
    ∃ outcome : Except ParseError (Option Condition), ∀ {left right on text},
      text ∈ listing columns left right on rest →
        parse text = outcome.map fun condition =>
          .join ⟨.named columns, left, right, on, condition⟩ := by
  classical
  -- The outcome is told by the names and by the clause alone.
  refine ⟨if ∀ name ∈ columns, Reference ["FROM"] name
    then StatementKind.join.expect (Condition.readClause? rest)
    else .error (.malformed .join), fun {left right on text} written => ?_⟩
  -- The words tell a join, whatever the columns are.
  have parsed : parse text = .join <$> Join.parse text := by
    have found := contains_listing text written
    simp only [listing, mul_assoc] at written
    have kind := StatementKind.ofText?_of_mem_select apart_projection_mul written
    simp [parse, kind, found, parseAs]
  rw [parsed, Join.parse]
  -- With all names allowed, the clause decides, and otherwise the list is cut short.
  split
  · next unreserved =>
    rw [Join.read?_of_mem_listing ends unreserved written]
    cases Condition.readClause? rest <;> rfl
  · next reserved =>
    push Not at reserved
    rw [Join.read?_eq_none_of_mem_listing reserved written]
    rfl

end TableStore
