import TableStore.Statement.Selection
import TableStore.Table.Basic

/-! The inner join of two tables on one column of each. -/

namespace TableStore

namespace Join

/--
The columns that are compared, of the left and of the right table. The condition may name the
tables in either order; unless it names exactly the two in reverse, it is read in order.
-/
def keys (join : Join) : Bytes × Bytes :=
  -- Exactly reversed tables swap the columns; anything else is taken as it stands.
  if join.on.leftTable == join.right && join.on.rightTable == join.left then
    (join.on.rightColumn, join.on.leftColumn)
  else (join.on.leftColumn, join.on.rightColumn)

end Join

namespace Table

/-- The names of the columns, each qualified by the name of the table. -/
def qualifiedNames (table : Table) : List Bytes :=
  table.columnNames.map fun column => table.name ++ period :: column

/-- The position of a column that a join compares. -/
def joinPosition (table : Table) (column : Bytes) : Except QueryError Nat :=
  (table.columnIndex? column).elim (.error (.joinColumnNotFound column table.name)) .ok

/-- The pairs of rows that are equal in one column of each, in the order of the rows. -/
def pairs (left right : Table) (leftKey rightKey : Nat) : Relation :=
  -- The key of a row is found once and not for every pair.
  let keyed := right.rows.toList.map fun row => ((row.valueAt rightKey).key, row)
  { columns := left.qualifiedNames ++ right.qualifiedNames
    rows := left.rows.toList.flatMap fun leftRow =>
      let key := (leftRow.valueAt leftKey).key
      (keyed.filter (key == ·.1)).map fun (_, rightRow) => leftRow ++ rightRow }

/-- The pairs are those of rows with equal values in the two columns. -/
theorem rows_pairs (left right : Table) (leftKey rightKey : Nat) :
    (left.pairs right leftKey rightKey).rows = left.rows.toList.flatMap fun leftRow =>
      (right.rows.toList.filter fun rightRow =>
        leftRow.valueAt leftKey == rightRow.valueAt rightKey).map (leftRow ++ ·) := by
  -- Equality of values is equality of their keys.
  simp only [pairs, List.filter_map, List.map_map]
  rfl

/-- Answers a query on the pairs of rows of two tables. -/
def join (left right : Table) (join : Join) : Except QueryError Relation := do
  -- The columns of the condition come first, that of the left table before the other.
  let leftKey ← left.joinPosition join.keys.1
  let rightKey ← right.joinPosition join.keys.2
  -- The pairs are filtered under their qualified names, and then the columns are chosen.
  let joined := (left.pairs right leftKey rightKey).restrict join.condition
  (joined.project join.projection).mapError
    (.columnNotFound · (left.name ++ utf8 " JOIN " ++ right.name))

end Table

end TableStore
