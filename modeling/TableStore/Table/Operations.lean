import TableStore.Table.Basic

/-! Inserting, selecting, updating and removing rows. An operation that fails changes nothing. -/

namespace TableStore

namespace Table

/-- The value that a column stores, or the error that names the column. -/
def convertFor (column : Column) (value : Value) : Except QueryError Value :=
  (column.convert value).mapError (.columnConversion column.name)

/-- The row that the table stores for a list of values. -/
def convertRow (table : Table) (values : List Value) : Except QueryError Row :=
  -- The number of values is checked before any of them is converted.
  if values.length ≠ table.columns.length then
    .error (.valueCount table.columns.length values.length)
  else (table.columns.zip values).mapM fun (column, value) => convertFor column value

/-- The error of a row that repeats the primary key, or else the first unique column. -/
def duplicate? (table : Table) (row : Row) : Option QueryError :=
  -- The indexes tell what is taken, without a look at the rows.
  let isTaken (index : KeyIndex) : Bool := (index.lookup (index.valueOf row)).isSome
  if isTaken table.primary then some (.primaryKeyTaken (table.primary.valueOf row).toText)
  else (table.uniques.find? isTaken).map fun index =>
    .uniqueTaken index.column (index.valueOf row).toText

/-- The table with one more row at the end. -/
def push (table : Table) (row : Row) : Table :=
  -- The new row gets the position behind the others, in every index.
  { table with
    rows := table.rows.push row
    primary := table.primary.insert row table.rows.size
    uniques := table.uniques.map (·.insert row table.rows.size) }

/-- Inserts a row. -/
def insert (table : Table) (values : List Value) : Except QueryError Table := do
  -- Nothing is stored before all checks have passed.
  let row ← table.convertRow values
  match table.duplicate? row with
  | some error => .error error
  | none => .ok (table.push row)

/-- The rows that a query reads; a condition on the primary key is answered by its index. -/
def scan (table : Table) (condition : Option Condition) : Relation :=
  match condition with
  | some { column, value } =>
    -- The key of at most one row is equal to the value.
    if column == table.primaryKey then
      { table.relation with
        rows := ((table.primary.lookup value).bind (table.rows[·]?)).toList }
    else table.relation.restrict condition
  | none => table.relation

/-- The columns that are asked for of the rows that meet a condition. -/
def select (table : Table) (projection : Projection) (condition : Option Condition) :
    Except QueryError Relation :=
  ((table.scan condition).project projection).mapError (.columnNotFound · table.name)

/-- A value to be written to the column at a position. -/
structure Write where
  position : Nat
  value : Value
deriving DecidableEq

/-- One more write; to a column that is written already it only changes the value. -/
def addWrite (write : Write) : List Write → List Write
  | [] => [write]
  | other :: writes =>
    -- The first place of a column is kept, and the last value wins.
    if other.position == write.position then write :: writes else other :: addWrite write writes

/-- The write that an assignment asks for. -/
def resolve (table : Table) (assignment : Assignment) : Except QueryError Write := do
  -- A name without a position and a position without a column are told alike.
  let unknown : QueryError := .columnNotFound assignment.column table.name
  let position ← (table.columnIndex? assignment.column).elim (.error unknown) .ok
  let column ← table.columns[position]?.elim (.error unknown) .ok
  let value ← convertFor column assignment.value
  return { position, value }

/-- The writes that assignments ask for, at most one for each column. -/
def resolveAll (table : Table) (assignments : List Assignment) : Except QueryError (List Write) :=
  assignments.foldlM (fun writes assignment =>
    return addWrite (← table.resolve assignment) writes) []

/--
The error of a write to an indexed column that would repeat its value: in several rows, or in one
row while another holds the value.
-/
def conflict? (table : Table) (targets : List Nat) (write : Write) : Option QueryError := do
  -- A column without an index has no conflicts.
  let index ← table.indexAt? write.position
  let isElsewhere := (index.lookup write.value).any (some · != targets.head?)
  guard (1 < targets.length || isElsewhere)
  if write.position == table.primary.position then
    return .primaryKeyTaken write.value.toText
  else return .uniqueTaken index.column write.value.toText

/-- The positions of the rows that meet a condition. -/
def targets (table : Table) (condition : Condition) : List Nat :=
  (table.rows.toList.zipIdx.filter fun (row, _) => table.meets condition row).map (·.2)

/-- A row with new values in some columns. -/
def applyWrites (writes : List Write) (row : Row) : Row :=
  writes.foldl (fun row write => row.set write.position write.value) row

/-- Writes to the rows that meet a condition; the indexes change only if their columns do. -/
def applyTo (table : Table) (condition : Condition) (writes : List Write) : Table :=
  -- Positions are kept, since rows are changed in their places.
  let rows := table.rows.map fun row =>
    if table.meets condition row then applyWrites writes row else row
  if writes.any fun write => (table.indexAt? write.position).isSome then table.withRows rows
  else { table with rows }

/-- Sets columns in the rows that meet a condition, and tells how many rows there are. -/
def update (table : Table) (assignments : List Assignment) (condition : Option Condition) :
    Except QueryError (Nat × Table) := do
  -- The condition must be there before the assignments are looked at.
  let condition ← condition.elim (.error (.missingCondition "UPDATE")) .ok
  let writes ← table.resolveAll assignments
  let targets := table.targets condition
  -- Without a row to change, no write can be in conflict.
  if targets.isEmpty then return (0, table)
  match writes.findSome? (table.conflict? targets) with
  | some error => .error error
  | none => return (targets.length, table.applyTo condition writes)

/-- Removes the rows that meet a condition, and tells how many there were. -/
def remove (table : Table) (condition : Option Condition) : Except QueryError (Nat × Table) := do
  -- What is counted are the rows that meet the condition, and what is kept are the others.
  let condition ← condition.elim (.error (.missingCondition "DELETE")) .ok
  let isKept (row : Row) : Bool := !table.meets condition row
  return ((table.targets condition).length, table.withRows (table.rows.filter isKept))

end Table

end TableStore
