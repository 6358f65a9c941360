import TableStore.Database.History

/-!
Listings: tables kept as plain lists of rows, whose every check is a search through all rows. They
say what a table answers without saying how it finds it.
-/

namespace TableStore

/-- What a table is declared as, and its rows. -/
structure Listing where
  schema : Schema
  rows : List Row

namespace Listing

/-- The listing without rows. -/
def new (schema : Schema) : Listing := { schema, rows := [] }

/-- The names of the columns. -/
def columnNames (listing : Listing) : List Bytes := listing.schema.columns.map (·.name)

/-- The value of a row in the first column of a name. -/
def valueIn? (listing : Listing) (column : Bytes) (row : Row) : Option Value :=
  (listing.columnNames.idxOf? column).bind (row[·]?)

/-- Whether a row has an equal value in a column. -/
def hasValue (listing : Listing) (column : Bytes) (value : Value) (row : Row) : Bool :=
  (listing.valueIn? column row).any (· == value)

/-- Whether a row meets a condition. -/
def meets (listing : Listing) (condition : Condition) (row : Row) : Bool :=
  listing.hasValue condition.column condition.value row

/-- The rows that meet a condition, in order. -/
def matching (listing : Listing) (condition : Condition) : List Row :=
  listing.rows.filter (listing.meets condition)

/-- Whether a row has a value in a column that one of the rows has there already. -/
def repeats (listing : Listing) (row : Row) (column : Bytes) : Bool :=
  (listing.valueIn? column row).any fun value => listing.rows.any (listing.hasValue column value)

/-- The value of a row in a column, as a message shows it. -/
def textIn (listing : Listing) (row : Row) (column : Bytes) : Bytes :=
  (listing.valueIn? column row).elim [] (·.toText)

/-- Adds a row at the end unless it repeats the primary key, or else a unique column. -/
def addRow (listing : Listing) (row : Row) : Except QueryError Listing :=
  let schema := listing.schema
  -- The primary key is told before any unique column.
  if listing.repeats row schema.primaryKey then
    .error (.primaryKeyTaken (listing.textIn row schema.primaryKey))
  else match schema.uniqueColumns.find? (listing.repeats row) with
    | some column => .error (.uniqueTaken column (listing.textIn row column))
    | none => .ok { listing with rows := listing.rows ++ [row] }

/-- Inserts a row: the number of values is checked first, then each value, then the row. -/
def insert (listing : Listing) (values : List Value) : Except QueryError Listing :=
  let schema := listing.schema
  -- The conversion names the column in its error.
  if values.length ≠ schema.columns.length then
    .error (.valueCount schema.columns.length values.length)
  else do
    let row ← (schema.columns.zip values).mapM fun (column, value) =>
      (column.convert value).mapError (.columnConversion column.name)
    listing.addRow row

/-- Selects columns, which must all exist, of the rows that meet a condition. -/
def select (listing : Listing) (projection : Projection) (condition : Option Condition) :
    Except QueryError Relation :=
  -- All rows are looked at, whatever the condition.
  let rows := condition.elim listing.rows listing.matching
  match projection with
  | .every => .ok { columns := listing.columnNames, rows }
  | .named columns =>
    match columns.find? fun column => !listing.columnNames.contains column with
    | some column => .error (.columnNotFound column listing.schema.name)
    | none =>
      .ok { columns, rows := rows.map fun row => columns.filterMap (listing.valueIn? · row) }

/-- An assignment of the value that the column stores, or why there is none. -/
def resolve (listing : Listing) (assignment : Assignment) : Except QueryError Assignment :=
  -- The first column of the name counts.
  match listing.schema.columns.find? (·.name == assignment.column) with
  | none => .error (.columnNotFound assignment.column listing.schema.name)
  | some column =>
    ((column.convert assignment.value).mapError (.columnConversion assignment.column)).map
      ({ assignment with value := · })

/-- The value that a column is assigned last. -/
def lastValue? (assignments : List Assignment) (column : Bytes) : Option Value :=
  (assignments.reverse.find? (·.column == column)).map (·.value)

/--
Whether a value that may not repeat must not be written to the rows that meet a condition: if there
are several, or if a row that does not meet it has the value.
-/
def isBlocked (listing : Listing) (condition : Condition) (column : Bytes) (value : Value) : Bool :=
  1 < (listing.matching condition).length || listing.rows.any fun row =>
    !listing.meets condition row && listing.hasValue column value row

/-- The error of writing a value to a column that may not repeat it. -/
def conflict? (listing : Listing) (condition : Condition) (column : Bytes) (value : Value) :
    Option QueryError :=
  -- A value is blocked if some row would repeat it.
  if listing.isBlocked condition column value then
    if column = listing.schema.primaryKey then some (.primaryKeyTaken value.toText)
    else if listing.schema.uniqueColumns.contains column then
      some (.uniqueTaken column value.toText)
    else none
  else none

/-- A row with one value set. -/
def assign (listing : Listing) (row : Row) (assignment : Assignment) : Row :=
  (listing.columnNames.idxOf? assignment.column).elim row (row.set · assignment.value)

/-- Sets columns, one after another, in the rows that meet a condition. -/
def update (listing : Listing) (assignments : List Assignment) (condition : Option Condition) :
    Except QueryError (Nat × Listing) :=
  match condition with
  | none => .error (.missingCondition "UPDATE")
  | some condition => do
    -- All assignments are resolved before a row is looked at.
    let resolved ← assignments.mapM listing.resolve
    let count := (listing.matching condition).length
    if count = 0 then return (0, listing)
    -- The value that counts for a column is the last one that is assigned to it.
    let conflict := resolved.findSome? fun assignment =>
      (lastValue? resolved assignment.column).bind
        (listing.conflict? condition assignment.column)
    match conflict with
    | some error => .error error
    | none =>
      let rows := listing.rows.map fun row =>
        if listing.meets condition row then resolved.foldl listing.assign row else row
      return (count, { listing with rows })

/-- Removes the rows that meet a condition. -/
def remove (listing : Listing) (condition : Option Condition) :
    Except QueryError (Nat × Listing) :=
  match condition with
  -- Without a condition nothing is removed.
  | none => .error (.missingCondition "DELETE")
  | some condition =>
    let rows := listing.rows.filter fun row => !listing.meets condition row
    .ok ((listing.matching condition).length, { listing with rows })

/-- The rows after a command, which are those before it if it fails, and its answer. -/
def perform (listing : Listing) (command : TableCommand) :
    Listing × Except QueryError TableAnswer :=
  -- Every command gives an answer and a listing, or an error.
  let result : Except QueryError (TableAnswer × Listing) := match command with
    | .insert values => (listing.insert values).map (.inserted, ·)
    | .select projection condition =>
      (listing.select projection condition).map (.selected ·, listing)
    | .update assignments condition =>
      (listing.update assignments condition).map fun (count, changed) => (.updated count, changed)
    | .remove condition =>
      (listing.remove condition).map fun (count, changed) => (.removed count, changed)
  match result with
  | .ok (answer, changed) => (changed, .ok answer)
  | .error error => (listing, .error error)

/-- The listing after commands. -/
def after (listing : Listing) (commands : List TableCommand) : Listing :=
  commands.foldl (fun listing command => (listing.perform command).1) listing

/-- What a listing answers to commands, one after another. -/
def answers (listing : Listing) : List TableCommand → List (Except QueryError TableAnswer)
  | [] => []
  | command :: commands =>
    (listing.perform command).2 :: (listing.perform command).1.answers commands

end Listing

/-- What a table answers to commands, one after another. -/
def Table.answers (table : Table) : List TableCommand → List (Except QueryError TableAnswer)
  | [] => []
  | command :: commands =>
    (table.perform command).result :: (table.perform command).state.answers commands

end TableStore
