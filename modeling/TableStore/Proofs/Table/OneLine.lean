import Mathlib.Data.Option.Basic
import TableStore.Proofs.OneLine
import TableStore.Proofs.Table.Writes
import TableStore.Table.Command

/-!
Tables that are declared on one line. Main statement: what is asked of such a table with texts on
one line is refused, if at all, with a message on one line.
-/

namespace TableStore

/-- The names and types that a schema declares. -/
def Schema.shown (schema : Schema) : List Bytes :=
  schema.name :: schema.primaryKey :: schema.uniqueColumns ++
    schema.columns.flatMap fun column => [column.name, column.typeName]

/-- A table declares its names and types on one line. -/
def Table.OneLine (table : Table) : Prop :=
  ∀ shown ∈ table.schema.shown, TableStore.OneLine shown

/-- The texts of a command that an error of it may show. -/
def TableCommand.shown : TableCommand → List Bytes
  -- A removal tells no text of its own.
  | .insert values => values.map Value.toText
  | .select projection _ => projection.names
  | .update assignments _ => assignments.flatMap fun item => [item.column, item.value.toText]
  | .remove _ => []

/-- All texts of a command that an error may show are on one line. -/
def TableCommand.OneLine (command : TableCommand) : Prop :=
  ∀ shown ∈ command.shown, TableStore.OneLine shown

namespace QueryError

/-- The wording of a failure is on one line. -/
def OneLine (error : QueryError) : Prop := TableStore.OneLine error.message

/-- The texts that the wording of a failure quotes. -/
@[simp] def quoted : QueryError → List Bytes
  | parse cause _ => [cause.message]
  | conversion cause => [cause.message]
  | columnConversion column cause => [column, cause.message]
  | tableNotFound name | tableExists name | primaryKeyUnknown name | duplicateColumn name
  | selfJoin name | primaryKeyTaken name | missingCondition name => [name]
  | columnNotFound column table | joinColumnNotFound column table => [column, table]
  | uniqueTaken column value => [column, value]
  | valueCount _ _ => []

/-- Nothing but the texts that it quotes could break the wording of a failure. -/
theorem oneLine_of_quoted {error : QueryError}
    (quoted : ∀ text ∈ error.quoted, TableStore.OneLine text) : error.OneLine := by
  -- Each message is made of fixed wording, numbers and what the failure quotes.
  cases error <;>
    simp +decide only [QueryError.quoted, List.forall_mem_cons] at quoted <;>
    simp +decide [OneLine, message, oneLine_decimal, quoted]

end QueryError

/-- Columns that are asked for are there, or one of them is told. -/
theorem Relation.ends_project (relation : Relation) (projection : Projection) :
    Ends (fun _ => True) (· ∈ projection.names) (relation.project projection) := by
  -- All columns are always there; a named one is looked up, and told if it is missing.
  cases projection with
  | every => trivial
  | named columns =>
    have found : Ends (fun positions => ∀ position ∈ positions, True) (· ∈ columns)
        (columns.mapM fun column =>
          (relation.position? column).elim (Except.error column) Except.ok) :=
      Ends.mapM fun column among => Ends.elim (fun _ _ => trivial) among
    exact found.bind fun _ _ _ => trivial

namespace Table

variable {table : Table} {values : List Value} {row : Row}

/-- The name of a table in use is on one line. -/
theorem OneLine.name (oneLine : table.OneLine) : TableStore.OneLine table.name :=
  -- The name is the first of what its schema shows.
  oneLine _ (by simp [Schema.shown, schema])

/-- The columns of the indexes are declared ones. -/
theorem OneLine.index (oneLine : table.OneLine) {index : KeyIndex}
    -- The column of an index is the key or one of the unique columns, and both are shown.
    (among : index ∈ table.primary :: table.uniques) : TableStore.OneLine index.column := by
  apply oneLine
  rcases List.mem_cons.1 among with rfl | isUnique
  · simp [Schema.shown, schema, primaryKey]
  · have isNamed : index.column ∈ table.uniqueColumns := List.mem_map_of_mem isUnique
    simp [Schema.shown, schema, isNamed]

/-- A column's name and type are each on one line. -/
theorem OneLine.column (oneLine : table.OneLine) {column : Column}
    (among : column ∈ table.columns) :
    TableStore.OneLine column.name ∧ TableStore.OneLine column.typeName := by
  -- Both are among the texts that the schema shows for this column.
  have shown : [column.name, column.typeName] ⊆ table.schema.shown := by
    intro text isPart
    refine List.mem_append_right _ (List.mem_flatMap.2 ⟨column, among, isPart⟩)
  exact ⟨oneLine _ (shown (by simp)), oneLine _ (shown (by simp))⟩

/-- A table is built, or a column of an index is told that is not declared. -/
theorem ends_create {schema : Schema}
    (declared : ∀ shown ∈ schema.shown, TableStore.OneLine shown) :
    Ends (fun _ => True) QueryError.OneLine (create schema) := by
  -- What the schema shows is its name, its key, its unique columns and its columns' texts.
  simp only [Schema.shown, List.cons_append, List.forall_mem_cons, List.forall_mem_append]
    at declared
  obtain ⟨isName, isKey, areUnique, -⟩ := declared
  -- The key comes first: its failure names the key and nothing else.
  refine Ends.elim_bind (QueryError.oneLine_of_quoted (by simp [isKey])) fun primary _ => ?_
  -- After it, each unique column is looked up in the same way.
  have uniques : Ends (fun indexes => ∀ index ∈ indexes, True) QueryError.OneLine
      (schema.uniqueColumns.eraseDups.mapM fun column =>
        (schema.index? column).elim (.error (.columnNotFound column schema.name)) .ok) := by
    refine Ends.mapM fun column among => Ends.elim (fun _ _ => trivial) ?_
    have isUnique := areUnique column (List.mem_eraseDups.1 among)
    exact QueryError.oneLine_of_quoted (by simp [isUnique, isName])
  exact uniques.bind fun _ _ _ => trivial

/-! ## Rows -/

/-- A column is named in front of the error of its value. -/
theorem OneLine.ends_convertFor (oneLine : table.OneLine) {column : Column}
    (among : column ∈ table.columns) {value : Value} (written : TableStore.OneLine value.toText) :
    Ends (fun stored => TableStore.OneLine stored.toText) QueryError.OneLine
      (convertFor column value) := by
  -- What the conversion tells is on one line, and the column's name is put in front of it.
  obtain ⟨isName, isType⟩ := oneLine.column among
  refine (Column.ends_convert written isType).mapError fun cause refused => ?_
  exact QueryError.oneLine_of_quoted (by simp [isName, refused])

/-- A row is stored, or it has another length, or one of its values is of another type. -/
theorem OneLine.ends_convertRow (oneLine : table.OneLine)
    (written : ∀ value ∈ values, TableStore.OneLine value.toText) :
    Ends (fun row : Row => ∀ stored ∈ row, TableStore.OneLine stored.toText) QueryError.OneLine
      (table.convertRow values) := by
  -- A row of another length is told by numbers; otherwise each value goes to its own column.
  rw [convertRow]
  split
  · exact QueryError.oneLine_of_quoted (by simp)
  · refine Ends.mapM fun pair among => ?_
    obtain ⟨isColumn, isValue⟩ := List.of_mem_zip among
    exact oneLine.ends_convertFor isColumn (written pair.2 isValue)

/-- What is found in a row on one line, or zero where nothing is found. -/
theorem oneLine_valueAt (written : ∀ value ∈ row, TableStore.OneLine value.toText)
    (position : Nat) : TableStore.OneLine (row.valueAt position).toText := by
  -- The row either has a value at the position or is shorter.
  rw [Row.valueAt, List.getD_eq_getElem?_getD]
  cases found : row[position]? with
  | none => exact oneLine_integerText _
  | some value => exact written value (List.mem_of_getElem? found)

/-! ## Commands -/

/-- A row repeats a value of its own, in a column of the table. -/
theorem OneLine.duplicate? (oneLine : table.OneLine)
    (written : ∀ value ∈ row, TableStore.OneLine value.toText) {error : QueryError}
    (taken : table.duplicate? row = some error) : error.OneLine := by
  have stored (index : KeyIndex) : TableStore.OneLine (index.valueOf row).toText :=
    oneLine_valueAt written index.position
  -- The primary key is checked first, and the unique columns in turn.
  simp only [Table.duplicate?] at taken
  split_ifs at taken
  · obtain rfl := Option.some.inj taken
    exact QueryError.oneLine_of_quoted (by simp [stored])
  · obtain ⟨index, found, rfl⟩ := Option.map_eq_some_iff.1 taken
    have isUnique := List.mem_cons_of_mem table.primary (List.mem_of_find?_eq_some found)
    exact QueryError.oneLine_of_quoted
      (by simp [oneLine.index isUnique, stored])

/-- A row is inserted, or it does not convert, or it repeats a value. -/
theorem OneLine.ends_insert (oneLine : table.OneLine)
    (written : ∀ value ∈ values, TableStore.OneLine value.toText) :
    Ends (fun _ => True) QueryError.OneLine (table.insert values) := by
  -- Only a row that has been converted is compared with the others.
  refine (oneLine.ends_convertRow written).bind fun row _ stored => ?_
  split
  · next error taken => exact oneLine.duplicate? stored taken
  · trivial

/-- A query is refused for a column that it asks for. -/
theorem OneLine.ends_select (oneLine : table.OneLine) {projection : Projection}
    (asked : ∀ name ∈ projection.names, TableStore.OneLine name) (condition : Option Condition) :
    Ends (fun _ => True) QueryError.OneLine (table.select projection condition) := by
  -- The failure names the column, which the query had asked for, and the table.
  refine Ends.mapError (Relation.ends_project _ projection) fun column among => ?_
  exact QueryError.oneLine_of_quoted
    (by simp [asked column among, oneLine.name])

/-- An assignment writes what its column stores. -/
theorem OneLine.ends_resolve (oneLine : table.OneLine) {assignment : Assignment}
    (isName : TableStore.OneLine assignment.column)
    (written : TableStore.OneLine assignment.value.toText) :
    Ends (fun write : Write => TableStore.OneLine write.value.toText) QueryError.OneLine
      (table.resolve assignment) := by
  -- A column that is unknown is named together with the table.
  have unknown : (QueryError.columnNotFound assignment.column table.name).OneLine :=
    QueryError.oneLine_of_quoted (by simp [isName, oneLine.name])
  refine Ends.elim_bind unknown fun position _ => Ends.elim_bind unknown fun column found => ?_
  have among := List.mem_of_getElem? found
  exact (oneLine.ends_convertFor among written).bind fun value _ stored => stored

/-- The writes of assignments are those of each of them. -/
theorem OneLine.ends_resolveAll (oneLine : table.OneLine) {assignments : List Assignment}
    (assigned : ∀ item ∈ assignments,
      TableStore.OneLine item.column ∧ TableStore.OneLine item.value.toText) :
    Ends (fun writes : List Write => ∀ write ∈ writes, TableStore.OneLine write.value.toText)
      QueryError.OneLine (table.resolveAll assignments) := by
  -- All writes so far are written on one line, and the next one joins or replaces one of them.
  refine Ends.foldlM (by simp) fun writes stored assignment among => ?_
  obtain ⟨isName, written⟩ := assigned assignment among
  refine (oneLine.ends_resolve isName written).bind fun write _ fresh other isWrite => ?_
  rcases mem_addWrite isWrite with rfl | earlier
  · exact fresh
  · exact stored other earlier

/-- A write repeats its value in an indexed column. -/
theorem OneLine.conflict? (oneLine : table.OneLine) {write : Write} {targets : List Nat}
    (written : TableStore.OneLine write.value.toText) {error : QueryError}
    (taken : table.conflict? targets write = some error) : error.OneLine := by
  -- A conflict is found at an index on the column that is written.
  simp only [Table.conflict?, Option.bind_eq_bind, Option.bind_eq_some_iff] at taken
  obtain ⟨index, found, _, -, taken⟩ := taken
  have isIndexed := List.mem_of_find?_eq_some found
  split_ifs at taken <;> obtain rfl := Option.some.inj taken
  · -- The primary key tells the value, a unique column its own name as well.
    exact QueryError.oneLine_of_quoted (by simp [written])
  · exact QueryError.oneLine_of_quoted
      (by simp [oneLine.index isIndexed, written])

/-- An update is done, or it has no condition, or an assignment fails, or a value is repeated. -/
theorem OneLine.ends_update (oneLine : table.OneLine) {assignments : List Assignment}
    (assigned : ∀ item ∈ assignments,
      TableStore.OneLine item.column ∧ TableStore.OneLine item.value.toText)
    (condition : Option Condition) :
    Ends (fun _ => True) QueryError.OneLine (table.update assignments condition) := by
  -- The steps come in the order of the code, each with its own failure.
  have missing : (QueryError.missingCondition "UPDATE").OneLine :=
    QueryError.oneLine_of_quoted (by decide)
  refine Ends.elim_bind missing fun condition _ => ?_
  refine (oneLine.ends_resolveAll assigned).bind fun writes _ written => ?_
  dsimp only
  -- Without rows to change there is nothing to check.
  split
  · trivial
  · split
    · next error taken =>
      obtain ⟨write, among, conflict⟩ := List.exists_of_findSome?_eq_some taken
      exact oneLine.conflict? (written write among) conflict
    · trivial

/-- Rows are removed, or there is no condition. -/
theorem ends_remove (table : Table) (condition : Option Condition) :
    Ends (fun _ => True) QueryError.OneLine (table.remove condition) := by
  -- The only failure is one of fixed wording.
  have missing : (QueryError.missingCondition "DELETE").OneLine :=
    QueryError.oneLine_of_quoted (by decide)
  exact Ends.elim_bind missing fun _ _ => trivial

/-- Whatever is asked of a table with texts on one line is refused on one line, if it is. -/
theorem OneLine.ends_perform (oneLine : table.OneLine) {command : TableCommand}
    (asked : command.OneLine) :
    Ends (fun _ => True) QueryError.OneLine (table.perform command).result := by
  -- A command fails exactly with the error of its operation.
  cases command with
  | insert values =>
    have ends := oneLine.ends_insert fun value among => asked _ (List.mem_map_of_mem among)
    simp only [perform]
    cases result : table.insert values with
    | error error => rwa [result] at ends
    | ok answer => trivial
  | select projection condition =>
    have ends := oneLine.ends_select asked condition
    simp only [perform]
    cases result : table.select projection condition with
    | error error => rwa [result] at ends
    | ok answer => trivial
  | update assignments condition =>
    have assigned : ∀ item ∈ assignments,
        TableStore.OneLine item.column ∧ TableStore.OneLine item.value.toText := by
      intro item among
      have shown : [item.column, item.value.toText] ⊆ (TableCommand.update assignments
          condition).shown := fun text isPart => List.mem_flatMap.2 ⟨item, among, isPart⟩
      exact ⟨asked _ (shown (by simp)), asked _ (shown (by simp))⟩
    have ends := oneLine.ends_update assigned condition
    simp only [perform]
    cases result : table.update assignments condition with
    | error error => rwa [result] at ends
    | ok answer => trivial
  | remove condition =>
    have ends := table.ends_remove condition
    simp only [perform]
    cases result : table.remove condition with
    | error error => rwa [result] at ends
    | ok answer => trivial

end Table

end TableStore
