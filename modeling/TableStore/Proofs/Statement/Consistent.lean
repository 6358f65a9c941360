import TableStore.Proofs.Database.Sound
import TableStore.Proofs.OneLine
import TableStore.Proofs.Runs
import TableStore.Proofs.Search

/-!
Definitions that are read, whatever their text. Main statement: every one is consistent, so that
only a name can keep its table from being created: that of the table, or one of two columns.
-/

namespace TableStore

/-! ## Consistency -/

/-- A column whose name is an identifier and whose type is one word in capitals. -/
structure ColumnClause.WellFormed (column : ColumnClause) : Prop where
  isName : isIdentifier column.name = true
  nonempty : column.typeName ≠ []
  solid : ∀ byte ∈ column.typeName, isSpace byte = false
  capital : upper column.typeName = column.typeName

namespace TableDefinition

/-- The names of the columns, of which some may be equal. -/
def columnNames (definition : TableDefinition) : List Bytes := definition.columns.map (·.name)

/-- The names of the columns that are told to be unique, of which some may be equal. -/
def uniqueNames (definition : TableDefinition) : List Bytes :=
  (definition.columns.filter (·.isUnique)).map (·.name)

/--
A definition with columns, whose key is the name of one of them and of all that are primary, and
whose unique columns are listed once each, as they come first.
-/
structure Consistent (definition : TableDefinition) : Prop where
  nonempty : definition.columns ≠ []
  wellFormed : ∀ column ∈ definition.columns, column.WellFormed
  keyed : definition.primaryKey ∈ definition.columnNames
  primary : ∀ column ∈ definition.columns,
    column.isPrimary = true ↔ column.name = definition.primaryKey
  unrepeated : definition.uniqueColumns.Nodup
  unique : ∀ name, name ∈ definition.uniqueColumns ↔ name ∈ definition.uniqueNames
  ordered : definition.uniqueColumns.Pairwise fun first second =>
    definition.uniqueNames.idxOf first < definition.uniqueNames.idxOf second

/-- The table that a definition describes, without rows. -/
structure Describes (definition : TableDefinition) (table : Table) : Prop where
  noRows : table.rows = #[]
  name_eq : table.name = definition.table
  columns_eq : table.columns = definition.columns.map fun column =>
    ⟨column.name, .ofDeclaration column.typeName, column.typeName⟩
  primaryKey_eq : table.primaryKey = definition.primaryKey
  uniqueColumns_eq : table.uniqueColumns = definition.uniqueColumns
  indexed : table.Indexed

/-- What comes of a definition: it is refused for a name, or its table is there without rows. -/
inductive Creation (definition : TableDefinition) (db : Database) : Database → Reply → Prop
  | taken (present : (db.table? definition.table).isSome = true) :
      Creation definition db db
        ⟨.tableExists, "Table '" ++ definition.table ++ "' already exists", ⟨[], []⟩⟩
  | repeated {front behind : List Bytes} {column : Bytes}
      (absent : db.table? definition.table = none)
      (cut : definition.columnNames = front ++ column :: behind) (distinct : front.Nodup)
      (again : column ∈ front) :
      Creation definition db db
        ⟨.duplicateColumn, "Duplicate column '" ++ column ++ "'", ⟨[], []⟩⟩
  | created {table : Table} (absent : db.table? definition.table = none)
      (distinct : definition.columnNames.Nodup) (described : definition.Describes table) :
      Creation definition db (db.put definition.table table)
        ⟨.ok, "Table '" ++ definition.table ++ "' created successfully", ⟨[], []⟩⟩

end TableDefinition

/-! ## Reading -/

/-- A column that is read has a name and a type. -/
theorem ColumnClause.wellFormed_of_parse {text : Bytes} {clause : ColumnClause}
    (parsed : parse text = .ok clause) : clause.WellFormed := by
  have found := elim_eq_ok_iff.1 parsed
  simp only [read?] at found
  split at found
  · next name typeName others isWords =>
    simp only [Option.ite_none_right_eq_some, Option.some.injEq] at found
    obtain ⟨isName, rfl⟩ := found
    obtain ⟨piece, nonempty⟩ : typeName ∈ splitWhere isSpace (trim text) ∧ typeName ≠ [] := by
      have isWord : typeName ∈ words (trim text) := by simp [isWords]
      simpa [words] using isWord
    refine ⟨isName, by simpa [upper] using nonempty, ?_, upper_upper typeName⟩
    -- No word contains white space, in whatever letter case.
    intro byte among
    obtain ⟨small, isIn, rfl⟩ := List.mem_map.1 among
    rw [isSpace_upperByte]
    exact uncut_of_mem_splitWhere typeName piece small isIn
  · simp at found

namespace TableDefinition

variable {text : Bytes} {definition : TableDefinition}

/-- The columns of a definition are its clauses, but for what is told to be primary. -/
theorem fields_of_ofClauses {table : Bytes} {clauses : List ColumnClause}
    (defined : ofClauses table clauses = .ok definition) :
    definition.primaryKey ∈ clauses.map (·.name) ∧
      definition.columns = (clauses.map fun clause =>
        { clause with isPrimary := clause.name == definition.primaryKey }) ∧
      definition.uniqueColumns = ((clauses.filter (·.isUnique)).map (·.name)).eraseDups := by
  -- A primary key is found among the clauses, or the definition is refused.
  rw [ofClauses] at defined
  split at defined
  · simp at defined
  · next key last =>
    obtain rfl := Except.ok.inj defined
    -- The last of the primary clauses is one of the clauses.
    have isKey : key ∈ clauses := (List.mem_filter.1 (List.mem_of_getLast? last)).1
    exact ⟨List.mem_map_of_mem isKey, rfl, rfl⟩

/-- A definition of well-formed columns is consistent. -/
theorem consistent_of_ofClauses {table : Bytes} {clauses : List ColumnClause}
    (wellFormed : ∀ clause ∈ clauses, clause.WellFormed)
    (defined : ofClauses table clauses = .ok definition) : definition.Consistent := by
  obtain ⟨keyed, columns, uniques⟩ := fields_of_ofClauses defined
  have names : definition.columnNames = clauses.map (·.name) := by
    rw [columnNames, columns, List.map_map]
    rfl
  have uniqueNames : definition.uniqueNames = (clauses.filter (·.isUnique)).map (·.name) := by
    rw [TableDefinition.uniqueNames, columns, List.filter_map, List.map_map]
    rfl
  rw [← names] at keyed
  rw [← uniqueNames] at uniques
  refine ⟨?_, ?_, keyed, ?_, ?_, ?_, ?_⟩
  · -- The key is the name of a column, so that there is one.
    exact fun nothing => by simp [columnNames, nothing] at keyed
  · rw [columns, List.forall_mem_map]
    intro clause among
    obtain ⟨isName, nonempty, solid, capital⟩ := wellFormed clause among
    exact ⟨isName, nonempty, solid, capital⟩
  · rw [columns, List.forall_mem_map]
    exact fun clause _ => beq_iff_eq
  · rw [uniques]
    exact nodup_eraseDups _
  · intro name
    rw [uniques, List.mem_eraseDups]
  · rw [uniques]
    exact pairwise_idxOf_eraseDups _

/-- What is read is a body of columns, and its table. -/
theorem consistent_of_parse (parsed : parse text = .ok definition) : definition.Consistent := by
  -- The body is found first, its parts are read as columns, and these make the definition.
  obtain ⟨⟨table, body⟩, -, found⟩ := bind_eq_ok_iff.1 parsed
  obtain ⟨clauses, read, defined⟩ := bind_eq_ok_iff.1 found
  refine consistent_of_ofClauses (fun clause among => ?_) defined
  -- Every clause comes from a part of the body, and is well formed as it is read.
  obtain ⟨part, -, isClause⟩ := exists_of_mem_mapM read among
  exact ColumnClause.wellFormed_of_parse isClause

/-- A text that is read as a definition is no other statement. -/
theorem statement_parse_of_parse (parsed : parse text = .ok definition) :
    Statement.parse text = .ok (.createTable definition) := by
  -- Whatever else is in the text, its first two words tell what it is.
  obtain ⟨found, isBody, -⟩ := bind_eq_ok_iff.1 parsed
  have read := elim_eq_ok_iff.1 isBody
  obtain ⟨behind, isCreate, read⟩ := Option.bind_eq_some_iff.1 read
  obtain ⟨rest, isTable, -⟩ := Option.bind_eq_some_iff.1 read
  have kind : StatementKind.ofText? text = some .createTable := by
    simp [StatementKind.ofText?, isCreate, isTable]
  rw [Statement.parse, kind]
  simp [Statement.parseAs, parsed]

/-! ## Execution -/

/-- The table is declared with the names of the columns. -/
theorem map_name_schema (definition : TableDefinition) :
    definition.schema.columns.map (·.name) = definition.columnNames := by
  -- Each column of the schema has the name of one of the definition.
  rw [schema, List.map_map]
  rfl

/-- A consistent definition describes a table that can be created. -/
theorem Consistent.exists_create (consistent : definition.Consistent) :
    ∃ table, Table.create definition.schema = .ok table ∧ definition.Describes table := by
  obtain ⟨table, created⟩ : ∃ table, Table.create definition.schema = .ok table := by
    refine Table.exists_create fun column among => ?_
    rw [definition.map_name_schema]
    rcases List.mem_cons.1 among with rfl | isUnique
    · exact consistent.keyed
    · -- A unique column is one of the columns that are told to be so.
      obtain ⟨clause, isClause, rfl⟩ := List.mem_map.1 ((consistent.unique column).1 isUnique)
      exact List.mem_map_of_mem (List.mem_filter.1 isClause).1
  refine ⟨table, created, ?_⟩
  obtain ⟨noRows, declared⟩ := Table.create_declares created
  have columns : definition.schema.columns = definition.columns.map fun column =>
      ⟨column.name, .ofDeclaration column.typeName, column.typeName⟩ := by
    refine List.map_congr_left fun column among => ?_
    rw [Column.declare, (consistent.wellFormed column among).capital]
  exact {
    noRows
    name_eq := congrArg Schema.name declared
    columns_eq := (congrArg Schema.columns declared).trans columns
    primaryKey_eq := congrArg Schema.primaryKey declared
    uniqueColumns_eq := (congrArg Schema.uniqueColumns declared).trans
      (eraseDups_of_nodup consistent.unrepeated)
    indexed := Table.create_indexed created }

/-- A consistent definition is refused for a name, or its table is created. -/
theorem Consistent.creation (consistent : definition.Consistent) (db : Database) :
    definition.Creation db (db.runCreate definition.schema).state
      (.ofResult (db.runCreate definition.schema).result) := by
  rw [Database.runCreate]
  -- The name of the table is looked at first, and those of its columns next.
  by_cases taken : (db.table? definition.table).isSome = true
  · rw [Database.create_of_taken taken]
    exact .taken taken
  · have absent := Option.not_isSome_iff_eq_none.1 taken
    cases repeated : Database.repeated? [] (definition.schema.columns.map (·.name)) with
    | some column =>
      rw [Database.create_of_repeated absent repeated]
      rw [definition.map_name_schema] at repeated
      obtain ⟨front, behind, cut, distinct, again⟩ :=
        Database.exists_of_repeated?_eq_some .nil repeated
      rw [List.append_nil] at distinct again
      exact .repeated absent cut (List.nodup_reverse.1 distinct) (List.mem_reverse.1 again)
    | none =>
      -- Nothing else can be wrong with what is consistent.
      obtain ⟨table, created, described⟩ := consistent.exists_create
      rw [Database.create_eq_ok_iff.2 ⟨absent, repeated, table, created, rfl⟩]
      rw [definition.map_name_schema] at repeated
      exact .created absent (Database.repeated?_eq_none_iff.1 repeated).1 described

end TableDefinition

/--
A text that is read as a definition makes a consistent one. To execute it is refused if there is a
table of the name, and else if two columns have the same name, which leaves the database as it was;
in all other cases the table that it describes is there afterwards, without rows.
-/
theorem definitions_fail_on_names {text : Bytes} {definition : TableDefinition}
    (parsed : TableDefinition.parse text = .ok definition) :
    definition.Consistent ∧ ∀ db : Database,
      definition.Creation db (db.execute text).state (.ofResult (db.execute text).result) := by
  have consistent := TableDefinition.consistent_of_parse parsed
  refine ⟨consistent, fun db => ?_⟩
  -- A failure is logged, which neither the state nor the reply tells.
  rw [Database.execute, TableDefinition.statement_parse_of_parse parsed, Database.state_logFailure,
    Database.result_logFailure]
  exact consistent.creation db

/-- Constraints are found in names and types too, and a parenthesis need not be closed. -/
theorem definitions_fail_on_names_found_in_types :
    (∃ definition, TableDefinition.parse
          "CREATE TABLE t (a keyprimary unique_x, b y( key, c int), a z UNIQUE PRIMARY KEY)" =
        .ok definition ∧ definition.columnNames = ["a", "b", "a"] ∧
      definition.uniqueNames = ["a", "a"] ∧ definition.Consistent ∧
      definition.Creation .empty (Database.empty.execute
          "CREATE TABLE t (a keyprimary unique_x, b y( key, c int), a z UNIQUE PRIMARY KEY)").state
        ⟨.duplicateColumn, "Duplicate column 'a'", ⟨[], []⟩⟩) ∧
    ∃ definition table, TableDefinition.parse
          "create table t(k_primary int, b x) unique, a monkey(primary, c( UNIQUENESS);" =
        .ok definition ∧ definition.columnNames = ["k_primary", "b", "a"] ∧
      definition.primaryKey = "a" ∧ definition.Consistent ∧ definition.Describes table ∧
      (Database.empty.execute
          "create table t(k_primary int, b x) unique, a monkey(primary, c( UNIQUENESS);").state =
        Database.empty.put "t" table := by
  constructor
  · -- The texts are read by running the reader, and all else is what the theorem says of them.
    have parsed : TableDefinition.parse
          "CREATE TABLE t (a keyprimary unique_x, b y( key, c int), a z UNIQUE PRIMARY KEY)" =
        .ok ⟨"t", [⟨"a", "KEYPRIMARY", true, true⟩, ⟨"b", "Y(", false, false⟩,
          ⟨"a", "Z", true, true⟩], "a", ["a"]⟩ := by
      decide +kernel
    -- The name a is given to two columns, which is what the statement is refused for.
    have replied : Reply.ofResult (Database.empty.execute
            "CREATE TABLE t (a keyprimary unique_x, b y( key, c int), a z UNIQUE PRIMARY KEY)"
          ).result = ⟨.duplicateColumn, "Duplicate column 'a'", ⟨[], []⟩⟩ := by
      decide +kernel
    obtain ⟨consistent, creation⟩ := definitions_fail_on_names parsed
    exact ⟨_, parsed, rfl, rfl, consistent, replied ▸ creation .empty⟩
  · have parsed : TableDefinition.parse
          "create table t(k_primary int, b x) unique, a monkey(primary, c( UNIQUENESS);" =
        .ok ⟨"t", [⟨"k_primary", "INT", false, false⟩, ⟨"b", "X)", false, true⟩,
          ⟨"a", "MONKEY(PRIMARY,", true, true⟩], "a", ["b", "a"]⟩ := by
      decide +kernel
    -- Of the three ways to end, two are excluded for the second text.
    obtain ⟨consistent, creation⟩ := definitions_fail_on_names parsed
    have created := creation .empty
    -- The state and the reply are named, so that the cases are about them.
    generalize (Database.empty.execute _).state = after, Reply.ofResult _ = reply at created
    cases created with
    | taken present => simp at present
    | @repeated front behind column absent cut distinct again =>
      have unrepeated : (front ++ column :: behind).Nodup := by
        rw [← cut]
        decide
      exact (List.disjoint_of_nodup_append unrepeated again List.mem_cons_self).elim
    | created absent distinct described =>
      exact ⟨_, _, parsed, rfl, rfl, consistent, described, rfl⟩

end TableStore
