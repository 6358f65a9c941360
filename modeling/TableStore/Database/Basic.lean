import TableStore.Table.Command

/-! Databases: tables by name. -/

namespace TableStore

/-- The tables of a database, in the order of their names. -/
structure Database where
  tables : Std.ExtTreeMap Bytes Table

namespace Database

/-- The database without tables. -/
def empty : Database := { tables := ∅ }

/-- The table of a name. -/
def table? (db : Database) (name : Bytes) : Option Table := db.tables[name]?

/-- The names of the tables, each above the one before it. -/
def tableNames (db : Database) : List Bytes := db.tables.keys

/-- The database with a table under its name. -/
def put (db : Database) (name : Bytes) (table : Table) : Database :=
  { tables := db.tables.insert name table }

/-- The first column name of a list that occurs in it again. -/
def repeated? : List Bytes → List Bytes → Option Bytes
  | _, [] => none
  | seen, name :: names => if seen.contains name then some name else repeated? (name :: seen) names

/-- Adds the empty table of a schema. -/
def create (db : Database) (schema : Schema) : Except QueryError Database := do
  -- The name of the table is checked before its columns.
  if (db.table? schema.name).isSome then throw (.tableExists schema.name)
  match repeated? [] (schema.columns.map (·.name)) with
  | some column => throw (.duplicateColumn column)
  | none => return db.put schema.name (← Table.create schema)

/-- The entry about a table that was added. -/
def logCreated (schema : Schema) : LogEntry :=
  { level := .info
    message := "Created table " ++ schema.name ++ " (" ++ decimal schema.columns.length ++
      " columns, primary key " ++ schema.primaryKey ++ ")" }

/-- Does what is asked of a table, if there is one of the name. -/
def act (db : Database) (name : Bytes) (command : TableCommand) :
    Option (Outcome Database TableAnswer) :=
  (db.table? name).map fun table =>
    -- The table keeps its name, whatever the command does to it.
    let outcome := table.perform command
    { outcome with state := db.put name outcome.state }

end Database

end TableStore
