import TableStore.Error
import TableStore.Table.KeyIndex

/-! Tables: columns, rows, and an index on the primary key and on every unique column. -/

namespace TableStore

/-- What a table is declared as. -/
structure Schema where
  name : Bytes
  columns : List Column
  primaryKey : Bytes
  uniqueColumns : List Bytes
deriving DecidableEq

/-- A table with its rows and indexes. -/
structure Table where
  name : Bytes
  columns : List Column
  primary : KeyIndex
  uniques : List KeyIndex
  rows : Array Row

/-- An empty index on the first column of a name. -/
def Schema.index? (schema : Schema) (column : Bytes) : Option KeyIndex :=
  ((schema.columns.map (·.name)).idxOf? column).map (KeyIndex.empty column)

namespace Table

/-- The empty table of a schema; a repeated unique column counts once. -/
def create (schema : Schema) : Except QueryError Table := do
  -- The key is looked up before the unique columns, so that its error comes first.
  let primary ← (schema.index? schema.primaryKey).elim
    (.error (.primaryKeyUnknown schema.primaryKey)) .ok
  let uniques ← schema.uniqueColumns.eraseDups.mapM fun column =>
    (schema.index? column).elim (.error (.columnNotFound column schema.name)) .ok
  return { name := schema.name, columns := schema.columns, primary, uniques, rows := #[] }

/-- The name of the primary key column. -/
def primaryKey (table : Table) : Bytes := table.primary.column

/-- The names of the unique columns. -/
def uniqueColumns (table : Table) : List Bytes := table.uniques.map (·.column)

/-- The names of the columns. -/
def columnNames (table : Table) : List Bytes := table.columns.map (·.name)

/-- What the table was declared as. -/
def schema (table : Table) : Schema :=
  { name := table.name, columns := table.columns, primaryKey := table.primaryKey,
    uniqueColumns := table.uniqueColumns }

/-- The rows under the names of the columns. -/
def relation (table : Table) : Relation :=
  { columns := table.columnNames, rows := table.rows.toList }

/-- The position of the first column of a name. -/
def columnIndex? (table : Table) (column : Bytes) : Option Nat := table.columnNames.idxOf? column

/-- Whether a row of the table meets a condition. -/
def meets (table : Table) (condition : Condition) (row : Row) : Bool :=
  condition.holdsFor table.columnNames row

/-- The index on a unique column. -/
def uniqueIndex? (table : Table) (column : Bytes) : Option KeyIndex :=
  table.uniques.find? (·.column == column)

/-- The index on the column at a position, the primary key before the unique columns. -/
def indexAt? (table : Table) (position : Nat) : Option KeyIndex :=
  (table.primary :: table.uniques).find? (·.position == position)

/-- The table with other rows and the indexes that belong to them. -/
def withRows (table : Table) (rows : Array Row) : Table :=
  -- Every index is built anew from the rows.
  { table with
    rows
    primary := table.primary.rebuild rows.toList
    uniques := table.uniques.map (·.rebuild rows.toList) }

end Table

end TableStore
