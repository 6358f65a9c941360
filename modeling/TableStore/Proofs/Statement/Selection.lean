import TableStore.Proofs.Statement.Words
import TableStore.Statement.Parse

/-!
Queries as they are written. Main statement: a written query is read as that query, on one table or
on two.
-/

namespace TableStore

open Language (append_mem_mul)

namespace Grammar

/-- The byte that stands for every column. -/
abbrev asterisk : UInt8 := 0x2A

/-- A column, or a table and a column with nothing but a period between them. -/
inductive Reference (reserved : List Bytes) : Bytes → Prop
  | plain {name : Bytes} (isName : name ∈ identifier reserved name) : Reference reserved name
  | qualified {table column : Bytes} (isTable : table ∈ identifier reserved table)
      (isColumn : column ∈ identifier reserved column) :
      Reference reserved (table ++ period :: column)

/-- A column as a list of columns names it. -/
def reference (reserved : List Bytes) (name : Bytes) : Language UInt8 :=
  {text | text = name ∧ Reference reserved name}

/-- An item of a list of columns. -/
def listed (reserved : List Bytes) (name : Bytes) : Language UInt8 :=
  spaces * reference reserved name * spaces

/-- A list of columns between two words. -/
def projection (reserved : List Bytes) : Projection → Language UInt8
  | .every => spaces * symbol asterisk * spaces
  | .named columns => gap * separated (listed reserved) columns * gap

/-- The list of columns of a query with the words around it. -/
def head (reserved : List Bytes) (found : Projection) : Language UInt8 :=
  spaces * word "SELECT" * projection ("FROM" :: reserved) found * word "FROM"

/-- The written forms of a query on one table: no name is JOIN, and no bare value contains it. -/
def selection (selection : Selection) : Language UInt8 :=
  head ["JOIN"] selection.projection * gap * identifier ["JOIN"] selection.table *
    clause ["JOIN"] selection.condition

/-- The two columns that a join compares. -/
def comparison (on : JoinCondition) : Language UInt8 :=
  member [] on.leftTable on.leftColumn * spaces * symbol equalsSign * spaces *
    member [] on.rightTable on.rightColumn

/-- The second table of a join and the columns that are compared. -/
def joined (join : Join) : Language UInt8 :=
  gap * (1 + word "INNER" * gap) * word "JOIN" * gap * identifier [] join.right * gap *
    word "ON" * gap * comparison join.on

/-- The written forms of a query on two tables. -/
def join (join : Join) : Language UInt8 :=
  head [] join.projection * gap * identifier [] join.left * joined join * clause [] join.condition

variable {searched name text : Bytes} {reserved : List Bytes} {found : Projection}
  {following : Language UInt8}

/-! ## Lists of columns -/

/-- No column in a list has white space in it. -/
theorem Reference.isSpace (isReference : Reference reserved name) {byte : UInt8}
    (among : byte ∈ name) : TableStore.isSpace byte = false := by
  -- It is made of one name, or of two and a period.
  cases isReference with
  | plain isName => exact isSpace_of_mem isName.2.1 among
  | qualified isTable isColumn =>
    rcases List.mem_append.1 among with among | among
    · exact isSpace_of_mem isTable.2.1 among
    · rcases List.mem_cons.1 among with rfl | among
      · rfl
      · exact isSpace_of_mem isColumn.2.1 among

/-- A column in a list is one that a list may ask for. -/
theorem Reference.isColumnReference (isReference : Reference reserved name) :
    Projection.isColumnReference name = true := by
  -- No period belongs to a name, so that a period is one between two names.
  have absent : ∀ {name}, isIdentifier name = true → period ∉ name := fun isName among =>
    absurd (isWordByte_of_mem isName among) (by decide)
  cases isReference with
  | plain isName =>
    have uncut : splitAtFirst? period name = none := by
      rw [Option.eq_none_iff_forall_ne_some]
      rintro ⟨before, after⟩ cut
      obtain ⟨rfl, -⟩ := splitAtFirst?_eq_some_iff.1 cut
      exact absent isName.2.1 (by simp)
    simp [Projection.isColumnReference, uncut, isName.2.1]
  | @qualified table column isTable isColumn =>
    have cut : splitAtFirst? period (table ++ period :: column) = some (table, column) :=
      splitAtFirst?_eq_some_iff.2 ⟨rfl, absent isTable.2.1⟩
    simp [Projection.isColumnReference, cut, isTable.2.1, isColumn.2.1]

/-- A column in a list is written as a column may be written elsewhere. -/
theorem Reference.mem_column (isReference : Reference reserved name) :
    name ∈ column reserved name := by
  -- A qualified column is written with nothing between its tokens.
  cases isReference with
  | plain isName => exact .inl isName
  | @qualified table column isTable isColumn =>
    have nothing : [] ∈ spaces := blank_nil
    have dot : [period] ∈ symbol period := rfl
    have isMember := append_mem_mul isTable <| append_mem_mul nothing <|
      append_mem_mul dot <| append_mem_mul nothing isColumn
    refine .inr ⟨table, column, rfl, ?_⟩
    simp only [member, mul_assoc]
    exact isMember

/-- A column in a list is not cut into several. -/
theorem Reference.uncut (isReference : Reference reserved name) : Uncut comma name := by
  -- Neither names nor the period have a comma in them.
  cases isReference with
  | plain isName => exact uncut_of_isIdentifier isName.2.1 rfl
  | qualified isTable isColumn =>
    have uncutPeriod : Uncut comma [period] := uncut_singleton rfl (by decide)
    exact (uncut_of_isIdentifier isTable.2.1 rfl).append
      (uncutPeriod.append (uncut_of_isIdentifier isColumn.2.1 rfl))

/-- The parts of an item. -/
theorem exists_of_mem_listed (written : text ∈ listed reserved name) :
    Reference reserved name ∧ ∃ before after, Blank before ∧ Blank after ∧
      text = before ++ (name ++ after) := by
  -- The column stands between two blanks, one of which is taken off at a time.
  simp only [listed, mul_assoc] at written
  obtain ⟨before, blankBefore, _, isBehind, rfl⟩ := Language.mem_mul.1 written
  obtain ⟨_, ⟨rfl, isReference⟩, after, blankAfter, rfl⟩ := Language.mem_mul.1 isBehind
  exact ⟨isReference, before, after, blankBefore, blankAfter, rfl⟩

/-- An item of a list is free of every reserved word. -/
theorem free_of_mem_listed (isWord : isIdentifier searched = true) (among : searched ∈ reserved)
    (written : text ∈ listed reserved name) : Free searched text := by
  -- The column is, and the white space around it has no words.
  obtain ⟨isReference, before, after, blankBefore, blankAfter, rfl⟩ := exists_of_mem_listed written
  exact (free_of_mem_column isWord among isReference.mem_column).padded isWord blankBefore
    blankAfter

/-- An item of a list is not cut into several. -/
theorem uncut_of_mem_listed (written : text ∈ listed reserved name) : Uncut comma text := by
  -- Neither the column nor the white space around it has a comma.
  obtain ⟨isReference, before, after, blankBefore, blankAfter, rfl⟩ := exists_of_mem_listed written
  exact (blankBefore.uncut rfl).append (isReference.uncut.append (blankAfter.uncut rfl))

/-- An item of a list is its column, but for white space. -/
theorem trim_of_mem_listed (written : text ∈ listed reserved name) : trim text = name := by
  -- The white space is trimmed off, and the column has none of its own.
  obtain ⟨isReference, before, after, blankBefore, blankAfter, rfl⟩ := exists_of_mem_listed written
  rw [trim_blank_append blankBefore, trim_append_blank blankAfter,
    trim_eq_self_of_forall fun _ => isReference.isSpace]

/-- A list is free of every reserved word. -/
theorem free_of_mem_projection (isWord : isIdentifier searched = true) (among : searched ∈ reserved)
    (written : text ∈ projection reserved found) : Free searched text := by
  -- The list is an asterisk between blanks, or its items between gaps.
  cases found with
  | every =>
    simp only [projection, mul_assoc] at written
    obtain ⟨before, blankBefore, _, isBehind, rfl⟩ := Language.mem_mul.1 written
    obtain ⟨_, rfl, after, blankAfter, rfl⟩ := Language.mem_mul.1 isBehind
    have free := (free_singleton isWord rfl rfl : Free searched [asterisk])
    exact free.padded isWord blankBefore blankAfter
  | named columns =>
    simp only [projection, mul_assoc] at written
    obtain ⟨before, isBefore, _, isBehind, rfl⟩ := Language.mem_mul.1 written
    obtain ⟨list, isList, after, isAfter, rfl⟩ := Language.mem_mul.1 isBehind
    have free := free_of_mem_separated isWord (fun _ _ => free_of_mem_listed isWord among) isList
    exact free.padded isWord isBefore.1 isAfter.1

/-- No word runs out of a list. -/
theorem getLast?_of_mem_projection (written : text ∈ projection reserved found) :
    text.getLast?.any isWordByte = false := by
  cases found with
  | every =>
    simp only [projection, mul_assoc] at written
    obtain ⟨before, blankBefore, _, isBehind, rfl⟩ := Language.mem_mul.1 written
    obtain ⟨_, rfl, after, blankAfter, rfl⟩ := Language.mem_mul.1 isBehind
    -- Neither an asterisk nor white space is of a word.
    rw [Option.any_eq_false]
    intro byte last
    rcases List.mem_append.1 (List.mem_of_getLast? last) with among | among
    · exact isWordByte_of_isSpace (blankBefore byte among)
    · rcases List.mem_cons.1 among with rfl | among
      · rfl
      · exact isWordByte_of_isSpace (blankAfter byte among)
  | named columns =>
    obtain ⟨front, -, after, isAfter, rfl⟩ := Language.mem_mul.1 written
    exact getLast?_append_of_mem_gap isAfter front

/-- No word runs into a list. -/
theorem apart_projection_mul : Apart (projection reserved found * following) := by
  -- An asterisk may follow a word at once, and a list only behind a gap.
  cases found with
  | every =>
    simp only [projection, mul_assoc]
    exact apart_symbol_mul rfl
  | named columns =>
    simp only [projection, mul_assoc]
    exact apart_gap_mul

end Grammar

open Grammar

variable {text rest : Bytes} {reserved : List Bytes} {following : Language UInt8}

namespace Projection

/-- A written list is read. -/
theorem read?_of_mem {found : Projection} (written : text ∈ projection reserved found) :
    read? text = some found := by
  cases found with
  | every =>
    simp only [projection, mul_assoc] at written
    obtain ⟨before, blankBefore, _, isBehind, rfl⟩ := Language.mem_mul.1 written
    obtain ⟨_, rfl, after, blankAfter, rfl⟩ := Language.mem_mul.1 isBehind
    rw [read?, trim_blank_append blankBefore, trim_append_blank blankAfter]
    rfl
  | named columns =>
    simp only [projection, mul_assoc] at written
    obtain ⟨before, isBefore, _, isBehind, rfl⟩ := Language.mem_mul.1 written
    obtain ⟨list, isList, after, isAfter, rfl⟩ := Language.mem_mul.1 isBehind
    have items := forall₂_of_mem_separated (fun _ _ => uncut_of_mem_listed) isList
    have parts : (splitOutsideQuotes comma (trim list)).map trim = columns := by
      rw [map_trim_splitOutsideQuotes_trim rfl]
      have same := items.imp fun _ _ => trim_of_mem_listed
      rwa [← List.forall₂_map_left_iff, List.forall₂_eq_eq_eq] at same
    have references : columns.all isColumnReference = true := by
      have named := items.flip.imp fun _ _ written =>
        And.intro (exists_of_mem_listed written).1.isColumnReference written
      exact List.all_eq_true.2 ((List.forall₂_and_left _ _).1 named).1
    have several : trim list ≠ utf8 "*" := by
      -- An asterisk would be a part of the list that names no column.
      intro every
      rw [← parts, every] at references
      exact absurd references (by decide)
    rw [read?, trim_blank_append isBefore.1, trim_append_blank isAfter.1]
    simp [several, parts, references]

/-- The head of a query is read up to its last word. -/
theorem readHead?_of_mem {found : Projection} (apart : Apart following)
    (written : text ∈ head reserved found * following) :
    ∃ rest ∈ following, readHead? text = some (found, rest) := by
  simp only [head, mul_assoc] at written
  obtain ⟨_, isListed, readSelect⟩ := exists_keyword? (by decide) apart_projection_mul written
  obtain ⟨list, isList, _, isBehind, rfl⟩ := Language.mem_mul.1 isListed
  obtain ⟨last, isLast, readFrom⟩ :=
    exists_keyword? (by decide) apart (mem_spaces_mul_self isBehind)
  obtain ⟨spelled, spells, rest, isRest, rfl⟩ := Language.mem_mul.1 isBehind
  -- The list is cut off in front of the first word FROM, since no column is named like it.
  have cut := (free_of_mem_projection (by decide) List.mem_cons_self isList).splitAtWord?
    (by decide) (getLast?_of_mem_projection isList) spells (apart rest isRest)
  exact ⟨last, isLast, by simp [readHead?, readSelect, cut, read?_of_mem isList, readFrom]⟩

end Projection

/-- A written query on one table is read. -/
theorem Selection.read?_of_mem {selection : Selection}
    (written : text ∈ Grammar.selection selection) : read? text = some selection := by
  -- The head is read first, then the table, and the clause is what is left.
  simp only [Grammar.selection, mul_assoc] at written
  obtain ⟨rest, isRest, readHead⟩ := Projection.readHead?_of_mem apart_gap_mul written
  obtain ⟨rest, isRest, readTable⟩ :=
    exists_identifier? apart_clause (mem_spaces_mul_of_gap isRest)
  simp [read?, readHead, readTable, readClause?_of_mem isRest]

/-- The columns that a join compares are read. -/
theorem JoinCondition.read?_of_mem {on : JoinCondition} (apart : Apart following)
    (written : text ∈ spaces * (comparison on * following)) :
    ∃ rest ∈ following, read? text = some (on, rest) := by
  simp only [comparison, mul_assoc] at written
  -- A table and a column are read on either side of the equals sign.
  obtain ⟨_, _, rest, isRest, readTable, readPeriod, readColumn⟩ :=
    exists_member? (apart_symbol_mul rfl) written
  obtain ⟨rest, isRest, readEquals⟩ := exists_symbol? rfl isRest
  obtain ⟨_, _, rest, isRest, readOther, readOtherPeriod, readOtherColumn⟩ :=
    exists_member? apart isRest
  refine ⟨rest, isRest, ?_⟩
  simp [read?, readColumn?, readTable, readPeriod, readColumn, readEquals, readOther,
    readOtherPeriod, readOtherColumn]

/-- The word INNER is skipped if it is there. -/
theorem getD_inner_of_mem
    (written : text ∈ gap * ((1 + word "INNER" * gap) * (word "JOIN" * (gap * following)))) :
    (Token.keyword? "INNER" text).getD text ∈ spaces * (word "JOIN" * (gap * following)) := by
  rw [add_mul, mul_add, one_mul] at written
  rcases (Language.mem_add _ _ _).1 written with plain | inner
  · -- The word JOIN stands where the word INNER could.
    have absent : Token.keyword? "INNER" text = none := keyword?_eq_none_of_mem (by decide)
      (by decide) (by decide) apart_gap_mul (mem_spaces_mul_of_gap plain)
    rw [absent]
    exact mem_spaces_mul_of_gap plain
  · rw [mul_assoc] at inner
    obtain ⟨rest, isRest, read⟩ :=
      exists_keyword? (by decide) apart_gap_mul (mem_spaces_mul_of_gap inner)
    rw [read]
    exact mem_spaces_mul_of_gap isRest

/-- A query on two tables is read up to the columns that it compares, and then what follows them. -/
theorem Join.exists_read? {join : Join} (apart : Apart following)
    (written : text ∈
      head [] join.projection * gap * identifier [] join.left * joined join * following) :
    ∃ rest ∈ following, read? text =
      (Condition.readClause? rest).map ({ join with condition := · }) := by
  -- The parts are read one after another, each of them leaving what is written behind it.
  simp only [joined, mul_assoc] at written
  obtain ⟨rest, isRest, readHead⟩ := Projection.readHead?_of_mem apart_gap_mul written
  obtain ⟨rest, isRest, readLeft⟩ :=
    exists_identifier? apart_gap_mul (mem_spaces_mul_of_gap isRest)
  obtain ⟨rest, isRest, readJoin⟩ :=
    exists_keyword? (by decide) apart_gap_mul (getD_inner_of_mem isRest)
  obtain ⟨rest, isRest, readRight⟩ :=
    exists_identifier? apart_gap_mul (mem_spaces_mul_of_gap isRest)
  obtain ⟨rest, isRest, readWord⟩ :=
    exists_keyword? (by decide) apart_gap_mul (mem_spaces_mul_of_gap isRest)
  obtain ⟨rest, isRest, readOn⟩ :=
    -- Behind the condition of the join there is only what follows the join.
    JoinCondition.read?_of_mem apart (mem_spaces_mul_of_gap isRest)
  refine ⟨rest, isRest, ?_⟩
  simp [read?, readHead, readLeft, readJoin, readRight, readWord, readOn, Option.map_eq_bind]

/-- A written query on two tables is read. -/
theorem Join.read?_of_mem {join : Join} (written : text ∈ Grammar.join join) :
    read? text = some join := by
  -- With the clause behind it, the join is read to its end.
  obtain ⟨rest, isRest, read⟩ := Join.exists_read? apart_clause written
  rw [read, readClause?_of_mem isRest, Option.map_some]

/-- A text that begins with the word SELECT is a query, and the word JOIN tells of which kind. -/
theorem StatementKind.ofText?_of_mem_select (apart : Apart following)
    (written : text ∈ spaces * (word "SELECT" * following)) :
    ofText? text = some (if hasWord "JOIN" text then .join else .select) := by
  -- The first word is SELECT, so that it is none of the others.
  have absent : ∀ other : Bytes, isIdentifier other = true → upper "SELECT" ≠ upper other →
      Token.keyword? other text = none := fun other isOther different =>
    keyword?_eq_none_of_mem (by decide) isOther different apart written
  -- The word is read, and the search for the second one tells the kind.
  obtain ⟨rest, -, readSelect⟩ := exists_keyword? (by decide) apart written
  simp [ofText?, readSelect, absent "CREATE" (by decide) (by decide),
    absent "INSERT" (by decide) (by decide)]

/-- A query on one table does not contain the word that tells a join. -/
theorem Grammar.lacks_join (selection : Selection) :
    Lacks "JOIN" (Grammar.selection selection) := by
  have isWord : isIdentifier (utf8 "JOIN") = true := by decide
  have among : utf8 "JOIN" ∈ [utf8 "JOIN"] := List.mem_cons_self
  simp only [Grammar.selection, head, mul_assoc]
  -- Token by token: each one lacks the word, and no word goes on from one to the next.
  refine .spaces_mul isWord ?_
  refine .word_mul isWord (by decide) (by decide) apart_projection_mul ?_
  refine .mul isWord (fun _ => free_of_mem_projection isWord (List.mem_cons_of_mem _ among))
    (fun _ isList _ _ => .inl (getLast?_of_mem_projection isList)) ?_
  refine .word_mul isWord (by decide) (by decide) apart_gap_mul (.gap_mul isWord ?_)
  exact .identifier_mul isWord among apart_clause (lacks_clause isWord among (by decide) _)

/-- The second table of a join stands behind the word that tells a join. -/
theorem Grammar.contains_joined (join : Join) :
    Contains "JOIN" (joined join * following) := by
  have isWord : isIdentifier (utf8 "JOIN") = true := by decide
  simp only [joined, mul_assoc, add_mul, mul_add, one_mul]
  -- The word INNER may stand in front of the word JOIN.
  rintro text (plain | inner)
  · exact contains_gap_mul_word isWord apart_gap_mul text plain
  · rw [← mul_assoc gap] at inner
    exact Contains.mul isWord (balanced_gap.mul (balanced_word (by decide))) apart_gap_mul
      (contains_gap_mul_word isWord apart_gap_mul) text inner

/-- A join contains the word that tells it from a query on one table. -/
theorem Grammar.contains_join (join : Join) : Contains "JOIN" (Grammar.join join) := by
  -- The names in front of the word may be any, since no name leaves a quoted run open.
  have balanced : Balanced (head [] join.projection * gap * identifier [] join.left) := by
    refine .mul (.mul (.mul (.mul (.mul balanced_spaces (balanced_word (by decide))) ?_)
      (balanced_word (by decide))) balanced_gap) balanced_identifier
    exact fun _ isList => (free_of_mem_projection (by decide) List.mem_cons_self isList).closed
  have apart : Apart (joined join * clause [] join.condition) := by
    simp only [joined, mul_assoc]
    exact apart_gap_mul
  rw [Grammar.join, mul_assoc]
  exact .mul (by decide) balanced apart (contains_joined join)

/--
A written query is read as that query. It is on two tables if they are joined, and on one if the
word JOIN does not occur in it, unless within quotes.
-/
theorem queries_read_back (text : Bytes) :
    (∀ selection, text ∈ Grammar.selection selection →
        Statement.parse text = .ok (.select selection)) ∧
      ∀ join, text ∈ Grammar.join join → Statement.parse text = .ok (.join join) := by
  refine ⟨fun selection written => ?_, fun join written => ?_⟩
  · -- Without the word JOIN the text is dispatched as a query on one table.
    have read := Selection.read?_of_mem written
    have absent := Grammar.lacks_join selection text written
    simp only [Grammar.selection, head, mul_assoc] at written
    have kind := StatementKind.ofText?_of_mem_select apart_projection_mul written
    simp [Statement.parse, kind, absent, Statement.parseAs, Selection.parse, read,
      StatementKind.expect]
  · -- With the word JOIN it is dispatched as a query on two.
    have read := Join.read?_of_mem written
    have found := Grammar.contains_join join text written
    simp only [Grammar.join, head, mul_assoc] at written
    have kind := StatementKind.ofText?_of_mem_select apart_projection_mul written
    simp [Statement.parse, kind, found, Statement.parseAs, Join.parse, read, StatementKind.expect]

/-- Tables and columns may be named like the words around them. -/
theorem queries_read_back_names_like_words :
    Statement.parse "select INNER from where where c='JOIN';" =
        .ok (.select ⟨"where", .named ["INNER"], some ⟨"c", .text "JOIN"⟩⟩) ∧
      Statement.parse "SELECT*FROM join JOIN on ON a.b=c.d" =
        .ok (.join ⟨.every, "join", "on", ⟨"a", "b", "c", "d"⟩, none⟩) := by
  -- There is one way of writing each token, with nothing between some of them.
  have nothing : utf8 "" ∈ spaces := blank_nil
  have gap : utf8 " " ∈ Grammar.gap := ⟨(by decide : Blank " "), by decide⟩
  have equals : utf8 "=" ∈ symbol equalsSign := rfl
  constructor
  · -- The query is written with the words in small letters.
    have select : utf8 "select" ∈ word "SELECT" := (by decide : upper "select" = upper "SELECT")
    have column : utf8 "INNER" ∈ reference ["FROM", "JOIN"] "INNER" :=
      ⟨rfl, .plain ⟨rfl, by decide, by decide⟩⟩
    have source : utf8 "from" ∈ word "FROM" := (by decide : upper "from" = upper "FROM")
    have table : utf8 "where" ∈ identifier ["JOIN"] "where" := ⟨rfl, by decide, by decide⟩
    have keyword : utf8 "where" ∈ word "WHERE" := (by decide : upper "where" = upper "WHERE")
    have name : utf8 "c" ∈ Grammar.column ["JOIN"] "c" := .inl ⟨rfl, by decide, by decide⟩
    have run : utf8 "'JOIN'" ∈ quoted "JOIN" := ⟨apostrophe, by decide⟩
    have closing : utf8 ";" ∈ ending := mem_ending_iff.2 (.semicolon blank_nil blank_nil)
    have value : utf8 "'JOIN'" ++ utf8 ";" ∈ valueAndEnd ["JOIN"] (.text "JOIN") :=
      .quoted run closing
    -- The tokens are put together from the left.
    have written := append_mem_mul nothing <| append_mem_mul select <| append_mem_mul gap <|
      append_mem_mul nothing <| append_mem_mul column <| append_mem_mul nothing <|
      append_mem_mul gap <| append_mem_mul source <| append_mem_mul gap <| append_mem_mul table <|
      append_mem_mul gap <| append_mem_mul keyword <| append_mem_mul gap <| append_mem_mul name <|
      append_mem_mul nothing <| append_mem_mul equals <| append_mem_mul nothing value
    refine (queries_read_back _).1 _ ?_
    simp only [Grammar.selection, head, projection, listed, separated, clause, condition,
      mul_assoc]
    exact written
  · -- The join is written with names that are words of its own.
    have select : utf8 "SELECT" ∈ word "SELECT" := rfl
    have every : utf8 "*" ∈ symbol asterisk := rfl
    have source : utf8 "FROM" ∈ word "FROM" := rfl
    have plain : utf8 "" ∈ 1 + word "INNER" * Grammar.gap := .inl rfl
    have join : utf8 "JOIN" ∈ word "JOIN" := rfl
    have on : utf8 "ON" ∈ word "ON" := rfl
    have name : ∀ name : Bytes, isIdentifier name = true → name ∈ identifier [] name :=
      fun name isName => ⟨rfl, isName, by simp⟩
    have dot : utf8 "." ∈ symbol period := rfl
    have closing : utf8 "" ∈ clause [] none := mem_ending_iff.2 (.spaces blank_nil)
    -- The tokens are put together from the left.
    have written := append_mem_mul nothing <| append_mem_mul select <| append_mem_mul nothing <|
      append_mem_mul every <| append_mem_mul nothing <| append_mem_mul source <|
      append_mem_mul gap <| append_mem_mul (name "join" (by decide)) <| append_mem_mul gap <|
      append_mem_mul plain <| append_mem_mul join <| append_mem_mul gap <|
      append_mem_mul (name "on" (by decide)) <| append_mem_mul gap <| append_mem_mul on <|
      append_mem_mul gap <| append_mem_mul (name "a" (by decide)) <| append_mem_mul nothing <|
      append_mem_mul dot <| append_mem_mul nothing <| append_mem_mul (name "b" (by decide)) <|
      append_mem_mul nothing <| append_mem_mul equals <| append_mem_mul nothing <|
      append_mem_mul (name "c" (by decide)) <| append_mem_mul nothing <| append_mem_mul dot <|
      append_mem_mul nothing <| append_mem_mul (name "d" (by decide)) closing
    refine (queries_read_back _).2 _ ?_
    simp only [Grammar.join, head, projection, joined, comparison, member, mul_assoc]
    exact written

end TableStore
