import Mathlib.Data.Option.Basic
import TableStore.Proofs.OneLine
import TableStore.Proofs.Token
import TableStore.Statement.Parse

/-!
Statements written on one line. Main statement: what such a statement names, and the error if it is
none, can be told on one line.
-/

namespace TableStore

variable {text rest : Bytes}

/-- The texts of a statement that a reply to it may show. -/
def Statement.shown : Statement → List Bytes
  -- A definition shows its column types, since errors of conversions name them.
  | .createTable definition =>
    definition.table :: definition.primaryKey :: definition.uniqueColumns ++
      definition.columns.flatMap fun column => [column.name, column.typeName]
  | .insert insertion => insertion.table :: insertion.values.map Value.toText
  | .select selection => selection.table :: selection.projection.names
  | .join query => [query.left, query.right, query.on.leftColumn, query.on.rightColumn] ++
      query.projection.names
  | .update change =>
    change.table :: change.assignments.flatMap fun item => [item.column, item.value.toText]
  | .delete deletion => [deletion.table]

/-- All texts of a statement that a reply may show are on one line. -/
def Statement.OneLine (statement : Statement) : Prop :=
  ∀ shown ∈ statement.shown, TableStore.OneLine shown

/-- The wording of a parse error is on one line. -/
def ParseError.OneLine (error : ParseError) : Prop := TableStore.OneLine error.message

/-- What is told of a statement of the wrong form is on one line. -/
theorem ParseError.oneLine_malformed (kind : StatementKind) : (malformed kind).OneLine := by
  -- There is one fixed message for each kind.
  cases kind <;> unfold ParseError.OneLine <;> decide

/-- What has the form of a kind of statement is good, and all else is told to have another. -/
theorem ends_expect {α : Type} {kind : StatementKind} {good : α → Prop} {read : Option α}
    (given : ∀ value, read = some value → good value) :
    Ends good ParseError.OneLine (kind.expect read) :=
  -- The reader either gives what it has read, or the message is told.
  Ends.elim given (ParseError.oneLine_malformed kind)

/-- A reader of names yields one. -/
theorem oneLine_of_identifier? {name : Bytes} (read : Token.identifier? text = some (name, rest)) :
    OneLine name :=
  -- Names have no line ends.
  oneLine_of_isIdentifier (Token.identifier?_eq_some_iff.1 read).2.1

/-! ## Definitions -/

/-- A column is declared with words, or the text that declares none is told. -/
theorem ColumnClause.ends_parse (oneLine : OneLine text) :
    Ends (fun clause : ColumnClause => OneLine clause.name ∧ OneLine clause.typeName)
      ParseError.OneLine (parse text) := by
  -- A success shows words of the text, and a failure quotes it.
  refine Ends.elim (fun clause read => ?_) ?_
  · simp only [read?] at read
    split at read
    · next name typeName others isWords =>
      simp only [Option.ite_none_right_eq_some, Option.some.injEq] at read
      obtain ⟨isName, rfl⟩ := read
      -- The type is the second word, which goes into capitals.
      have isWord : typeName ∈ words (trim text) := by simp [isWords]
      exact ⟨oneLine_of_isIdentifier isName, oneLine_upper_iff.2 (oneLine_of_mem_words isWord)⟩
    · simp at read
  · -- What is quoted is the whole text, without the white space around it.
    have start : OneLine (utf8 "Invalid column definition: ") := by decide
    exact oneLine_append_iff.2 ⟨start, oneLine.trim⟩

/-- What stands behind a word is a part of the text. -/
theorem OneLine.keyword? {word : Bytes} (oneLine : OneLine text)
    (read : Token.keyword? word text = some rest) : OneLine rest :=
  -- The rest is the end of the text.
  oneLine.of_subset (Token.keyword?_suffix read).subset

/-- What stands behind a name is a part of the text. -/
theorem OneLine.identifier? {name : Bytes} (oneLine : OneLine text)
    (read : Token.identifier? text = some (name, rest)) : OneLine rest :=
  -- The rest is the end of the text.
  oneLine.of_subset (Token.identifier?_suffix read).subset

/-- What stands behind a symbol is a part of the text. -/
theorem OneLine.symbol? {symbol : UInt8} (oneLine : OneLine text)
    (read : Token.symbol? symbol text = some rest) : OneLine rest :=
  -- The rest is the end of the text.
  oneLine.of_subset (Token.symbol?_suffix read).subset

/-- What stands in front of the last separator is a part of the text. -/
theorem OneLine.splitAtLast? {separator : UInt8} {front : Bytes} (oneLine : OneLine text)
    (cut : splitAtLast? separator text = some (front, rest)) : OneLine front := by
  -- The text is put together of the front, the separator and the rest.
  obtain ⟨rfl, -⟩ := splitAtLast?_eq_some_iff.1 cut
  exact (oneLine_append_iff.1 oneLine).1

/-- The table of a list of columns has names of its own or of them. -/
theorem TableDefinition.ends_ofClauses {table : Bytes} {clauses : List ColumnClause}
    (isName : OneLine table)
    (named : ∀ clause ∈ clauses, OneLine clause.name ∧ OneLine clause.typeName) :
    Ends (fun definition => (Statement.createTable definition).OneLine) ParseError.OneLine
      (ofClauses table clauses) := by
  -- A definition without a primary key is refused with a fixed message.
  rw [ofClauses]
  split
  · unfold Ends ParseError.OneLine
    decide
  · -- The key is the name of one of the columns, and so are the unique names.
    next key isKey =>
    have among : key ∈ clauses := (List.mem_filter.1 (List.mem_of_getLast? isKey)).1
    intro shown isShown
    simp only [Statement.shown, List.mem_cons, List.mem_append, List.mem_flatMap, List.mem_map,
      List.cons_append] at isShown
    -- What is shown is the table, the key, a unique column, or a part of a clause.
    rcases isShown with rfl | rfl | isUnique | ⟨_, ⟨clause, isClause, rfl⟩, isPart⟩
    · exact isName
    · exact (named key among).1
    · obtain ⟨clause, isClause, rfl⟩ := List.mem_map.1 (List.mem_eraseDups.1 isUnique)
      exact (named clause (List.mem_filter.1 isClause).1).1
    · rcases isPart with rfl | rfl | isNone
      · exact (named clause isClause).1
      · exact (named clause isClause).2
      · simp at isNone

/-- A definition is made of the names of its table and of its columns. -/
theorem TableDefinition.ends_parse (oneLine : OneLine text) :
    Ends (fun definition => (Statement.createTable definition).OneLine) ParseError.OneLine
      (parse text) := by
  -- The body stands between parentheses, behind the name of the table.
  have readBody : ∀ found, readBody? text = some found → OneLine found.1 ∧ OneLine found.2 := by
    rintro ⟨table, body⟩ read
    simp only [readBody?, Option.bind_eq_bind, Option.bind_eq_some_iff, Prod.exists,
      Option.pure_def, Option.some.injEq, Prod.mk.injEq] at read
    obtain ⟨_, isCreate, _, isTable, _, _, readTable, _, isOpen, _, _, cut, _, -, rfl, rfl⟩ := read
    have behind := ((oneLine.keyword? isCreate).keyword? isTable).identifier? readTable
    exact ⟨oneLine_of_identifier? readTable, (behind.symbol? isOpen).splitAtLast? cut⟩
  -- The body is read before its parts are.
  refine Ends.bind (ends_expect readBody) ?_
  rintro ⟨table, body⟩ - ⟨isName, oneLineBody⟩
  have read : Ends
      (fun clauses => ∀ clause ∈ clauses, OneLine clause.name ∧ OneLine clause.typeName)
      -- Each part of the body is a part of the text.
      ParseError.OneLine ((splitOutsideParentheses 0 body).mapM ColumnClause.parse) :=
    Ends.mapM fun definition among => ColumnClause.ends_parse
      (oneLineBody.of_subset (subset_of_mem_splitOutsideParentheses definition among))
  exact read.bind fun clauses _ named => ends_ofClauses isName named

/-! ## Queries -/

/-- The columns that a query asks for are names, or names of a table and of a column. -/
theorem Projection.oneLine_of_readHead? {projection : Projection}
    (read : readHead? text = some (projection, rest)) :
    ∀ name ∈ projection.names, OneLine name := by
  -- The list of columns is what is read between the two words.
  simp only [readHead?, Option.bind_eq_bind, Option.bind_eq_some_iff, Prod.exists, Option.pure_def,
    Option.some.injEq, Prod.mk.injEq] at read
  obtain ⟨_, -, list, _, -, _, isList, _, -, rfl, -⟩ := read
  unfold read? at isList
  dsimp only at isList
  -- Every column is asked for, or each of them is a name or two names.
  split at isList
  · obtain rfl := Option.some.inj isList
    have all : OneLine (utf8 "*") := by decide
    simpa [names] using all
  · simp only [Option.ite_none_right_eq_some, Option.some.injEq, List.all_eq_true] at isList
    obtain ⟨references, rfl⟩ := isList
    intro name among
    have reference := references name among
    unfold isColumnReference at reference
    split at reference
    · -- The column stands alone.
      exact oneLine_of_isIdentifier reference
    · next table column cut =>
      -- The column stands behind its table, with a period between the two names.
      obtain ⟨rfl, -⟩ := splitAtFirst?_eq_some_iff.1 cut
      rw [Bool.and_eq_true] at reference
      have point : period ≠ 0x0A := by decide
      simp [oneLine_of_isIdentifier reference.1, oneLine_of_isIdentifier reference.2, point]

/-- A query shows the names that it is read with. -/
theorem Selection.ends_parse (text : Bytes) :
    Ends (fun selection => (Statement.select selection).OneLine) ParseError.OneLine
      (parse text) := by
  -- A refusal is a fixed message, and a success is told by what is read.
  refine ends_expect fun selection read => ?_
  simp only [read?, Option.bind_eq_bind, Option.bind_eq_some_iff, Prod.exists, Option.pure_def,
    Option.some.injEq] at read
  obtain ⟨projection, _, readHead, table, _, readTable, condition, -, rfl⟩ := read
  -- What is shown is the table and the columns that are asked for.
  exact List.forall_mem_cons.2
    ⟨oneLine_of_identifier? readTable, Projection.oneLine_of_readHead? readHead⟩

/-- A table and its column are read as two names. -/
theorem JoinCondition.oneLine_of_readColumn? {table column : Bytes}
    (read : readColumn? text = some (table, column, rest)) : OneLine column := by
  -- The column is the second of the two names.
  simp only [readColumn?, Option.bind_eq_bind, Option.bind_eq_some_iff, Prod.exists,
    Option.pure_def, Option.some.injEq, Prod.mk.injEq] at read
  obtain ⟨_, _, -, _, -, _, _, readColumn, rfl, rfl, rfl⟩ := read
  exact oneLine_of_identifier? readColumn

/-- A join shows the names that it is read with. -/
theorem Join.ends_parse (text : Bytes) :
    Ends (fun join => (Statement.join join).OneLine) ParseError.OneLine (parse text) := by
  -- As in a query on one table, a refusal is a fixed message.
  refine ends_expect fun join read => ?_
  simp only [read?, Option.bind_eq_bind, Option.bind_eq_some_iff, Prod.exists, Option.pure_def,
    Option.some.injEq] at read
  obtain ⟨projection, _, readHead, left, _, readLeft, _, -, right, _, readRight, _, -, on, _,
    readOn, condition, -, rfl⟩ := read
  -- The condition is read as two columns, each behind its table.
  simp only [JoinCondition.read?, Option.bind_eq_bind, Option.bind_eq_some_iff, Prod.exists,
    Option.pure_def, Option.some.injEq, Prod.mk.injEq] at readOn
  obtain ⟨_, leftColumn, _, readLeftColumn, _, -, _, rightColumn, _, readRightColumn, rfl, -⟩ :=
    readOn
  -- What is shown is names, and the columns that are asked for.
  refine List.forall_mem_append.2 ⟨?_, Projection.oneLine_of_readHead? readHead⟩
  simp [oneLine_of_identifier? readLeft, oneLine_of_identifier? readRight,
    JoinCondition.oneLine_of_readColumn? readLeftColumn,
    JoinCondition.oneLine_of_readColumn? readRightColumn]

/-! ## Changes -/

/-- A row is inserted with the values of the literals between its parentheses. -/
theorem Insertion.ends_parse (oneLine : OneLine text) :
    Ends (fun insertion => (Statement.insert insertion).OneLine) ParseError.OneLine
      (parse text) := by
  -- A row that is read is shown with its values, and a refusal is a fixed message.
  refine ends_expect fun insertion read => ?_
  simp only [read?, Option.bind_eq_bind, Option.bind_eq_some_iff, Prod.exists, Option.pure_def,
    Option.some.injEq] at read
  obtain ⟨_, isInsert, _, isInto, table, _, readTable, _, isValues, _, isOpen, body, _, cut, _, -,
    rfl⟩ := read
  -- The body is what stands between the parentheses, so that it is a part of the text.
  have behind := ((oneLine.keyword? isInsert).keyword? isInto).identifier? readTable
  have oneLineBody := ((behind.keyword? isValues).symbol? isOpen).splitAtLast? cut
  refine List.forall_mem_cons.2 ⟨oneLine_of_identifier? readTable, ?_⟩
  -- A value that is shown is what a literal of the body stands for.
  intro shown isShown
  obtain ⟨value, isValue, rfl⟩ := List.mem_map.1 isShown
  obtain ⟨part, isPart, rfl⟩ := List.mem_map.1 isValue
  -- The last part is left out if it is blank.
  have among : part ∈ splitOutsideQuotes comma body := by
    split at isPart
    · exact List.mem_of_mem_dropLast isPart
    · exact isPart
  exact oneLine_readLiteral (oneLineBody.of_subset (subset_of_mem_splitPlain part among))

/-- An assignment is made of a name and a literal, or the text that is none is told. -/
theorem Assignment.ends_parse (oneLine : OneLine text) :
    Ends (fun found : Assignment => OneLine found.column ∧ OneLine found.value.toText)
      ParseError.OneLine (parse text) := by
  -- A success shows a name and a literal, and a failure quotes the item.
  refine Ends.elim (fun found read => ?_) ?_
  · simp only [read?, Option.bind_eq_bind, Option.bind_eq_some_iff, Prod.exists, Option.pure_def,
      Option.some.injEq, Option.guard_eq_some'] at read
    obtain ⟨column, value, cut, _, isName, rfl⟩ := read
    obtain ⟨same, -⟩ := splitAtFirst?_eq_some_iff.1 cut
    -- The name and the literal stand on the two sides of the sign.
    have inner : OneLine (column ++ equalsSign :: value) := same ▸ oneLine.trim
    rw [oneLine_append_iff, oneLine_cons_iff] at inner
    exact ⟨oneLine_of_isIdentifier isName, oneLine_readLiteral inner.2.2⟩
  · -- What is quoted is the whole item, without the white space around it.
    have start : OneLine (utf8 "Invalid SET clause: ") := by decide
    exact oneLine_append_iff.2 ⟨start, oneLine.trim⟩

/-- The SET clause is a part of the text that it is cut out of. -/
theorem Update.oneLine_splitClause (oneLine : OneLine text) : OneLine (splitClause text).1 := by
  unfold splitClause
  -- The clause ends at the next word, or else at the end of the statement.
  split
  · next clause rest cut =>
    obtain ⟨offset, -, same⟩ := Option.map_eq_some_iff.1 cut
    rw [List.splitAt_eq] at same
    obtain ⟨rfl, -⟩ := Prod.mk.inj same
    exact oneLine.of_subset (List.take_subset ..)
  · dsimp only
    -- A semicolon may have been taken off the end.
    split_ifs
    · exact oneLine.trim.of_subset (List.dropLast_subset _)
    · exact oneLine.trim

/-- An update shows its table and what it assigns. -/
theorem Update.ends_parse (oneLine : OneLine text) :
    Ends (fun update => (Statement.update update).OneLine) ParseError.OneLine (parse text) := by
  -- The head gives the table and the clause, which is a part of the text.
  have readHead : ∀ found, readHead? text = some found →
      OneLine found.1 ∧ OneLine found.2.1 := by
    rintro ⟨table, clause, rest⟩ read
    simp only [readHead?, Option.bind_eq_bind, Option.bind_eq_some_iff, Prod.exists,
      Option.pure_def, Option.some.injEq, Prod.mk.injEq] at read
    obtain ⟨_, isUpdate, _, _, readTable, _, isSet, _, -, rfl, rfl, -⟩ := read
    exact ⟨oneLine_of_identifier? readTable,
      oneLine_splitClause (((oneLine.keyword? isUpdate).identifier? readTable).keyword? isSet)⟩
  -- The assignments are read before the condition.
  refine Ends.bind (ends_expect readHead) ?_
  rintro ⟨table, clause, rest⟩ - ⟨isName, oneLineClause⟩
  have read : Ends (fun assignments : List Assignment => ∀ found ∈ assignments,
      OneLine found.column ∧ OneLine found.value.toText) ParseError.OneLine
      ((splitOutsideQuotes comma clause).mapM Assignment.parse) :=
    Ends.mapM fun item among => Assignment.ends_parse
      (oneLineClause.of_subset (subset_of_mem_splitPlain item among))
  -- What is left is the condition, which is not shown.
  refine read.bind fun assignments _ assigned => ?_
  have readClause : Ends (fun _ => True) ParseError.OneLine
      (StatementKind.update.expect (Condition.readClause? rest)) := ends_expect fun _ _ => trivial
  refine readClause.bind fun condition _ _ => ?_
  refine List.forall_mem_cons.2 ⟨isName, ?_⟩
  intro shown isShown
  -- What is shown besides the table is the two parts of an assignment.
  obtain ⟨found, among, isPart⟩ := List.mem_flatMap.1 isShown
  have both := assigned found among
  simp only [List.mem_cons, List.not_mem_nil, or_false] at isPart
  rcases isPart with rfl | rfl
  · exact both.1
  · exact both.2

/-- A deletion shows its table. -/
theorem Deletion.ends_parse (text : Bytes) :
    Ends (fun deletion => (Statement.delete deletion).OneLine) ParseError.OneLine
      (parse text) := by
  -- Of a deletion that is read only the table is shown, and a refusal is a fixed message.
  refine ends_expect fun deletion read => ?_
  simp only [read?, Option.bind_eq_bind, Option.bind_eq_some_iff, Prod.exists, Option.pure_def,
    Option.some.injEq] at read
  obtain ⟨_, -, _, -, table, _, readTable, condition, -, rfl⟩ := read
  -- The table is all that is shown.
  exact List.forall_mem_singleton.2 (oneLine_of_identifier? readTable)

/-- What is read of a text on one line, or the error, can be told on one line. -/
theorem Statement.ends_parse (oneLine : TableStore.OneLine text) :
    Ends Statement.OneLine ParseError.OneLine (parse text) := by
  -- The words tell the kind, and a text without them is refused with a fixed message.
  unfold parse
  split
  · next kind isKind =>
    -- Each kind has its own reader, whose texts are those of the statement.
    cases kind with
    | createTable => exact (TableDefinition.ends_parse oneLine).map fun _ => id
    | insert => exact (Insertion.ends_parse oneLine).map fun _ => id
    | select => exact (Selection.ends_parse text).map fun _ => id
    | join => exact (Join.ends_parse text).map fun _ => id
    | update => exact (Update.ends_parse oneLine).map fun _ => id
    | delete => exact (Deletion.ends_parse text).map fun _ => id
  · unfold Ends ParseError.OneLine
    decide

end TableStore
