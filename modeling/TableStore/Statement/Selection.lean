import TableStore.Statement.Condition

/-! The SELECT statements: columns of one table, or of the pairs of rows of two. -/

namespace TableStore

/-- A query on one table. -/
structure Selection where
  table : Bytes
  projection : Projection
  condition : Option Condition
deriving DecidableEq

/-- The two columns that a join compares, each with the table that the statement names. -/
structure JoinCondition where
  leftTable : Bytes
  leftColumn : Bytes
  rightTable : Bytes
  rightColumn : Bytes
deriving DecidableEq

/-- A query on the pairs of rows of two tables. -/
structure Join where
  projection : Projection
  left : Bytes
  right : Bytes
  on : JoinCondition
  condition : Option Condition
deriving DecidableEq

namespace Projection

/-- Whether a text is a column name, or a table name and a column name with a period between. -/
def isColumnReference (text : Bytes) : Bool :=
  -- A second period would stand in the column, which is then no name.
  match splitAtFirst? period text with
  | none => isIdentifier text
  | some (table, column) => isIdentifier table && isIdentifier column

/-- Reads a list of columns, or the asterisk that stands for all of them. -/
def read? (list : Bytes) : Option Projection :=
  let list := trim list
  if list == "*" then some .every
  else
    -- White space around each name is cut off.
    let columns := (splitOutsideQuotes comma list).map trim
    if columns.all isColumnReference then some (.named columns) else none

/-- Reads the head of a query up to the word FROM, and that word. -/
def readHead? (text : Bytes) : Option (Projection × Bytes) := do
  -- The list ends at the first word FROM outside quotes.
  let rest ← Token.keyword? "SELECT" text
  let (list, rest) ← splitAtWord? "FROM" rest
  let projection ← read? list
  let rest ← Token.keyword? "FROM" rest
  return (projection, rest)

end Projection

namespace Selection

/-- Reads a SELECT statement on one table. -/
def read? (text : Bytes) : Option Selection := do
  -- Nothing but a condition may stand behind the table.
  let (projection, rest) ← Projection.readHead? text
  let (table, rest) ← Token.identifier? rest
  let condition ← Condition.readClause? rest
  return { table, projection, condition }

/-- Reads a SELECT statement on one table or tells that the text is none. -/
def parse (text : Bytes) : Except ParseError Selection := StatementKind.select.expect (read? text)

end Selection

namespace JoinCondition

/-- Reads a table and one of its columns. -/
def readColumn? (text : Bytes) : Option (Bytes × Bytes × Bytes) := do
  -- A column of a join condition is always qualified.
  let (table, rest) ← Token.identifier? text
  let rest ← Token.symbol? period rest
  let (column, rest) ← Token.identifier? rest
  return (table, column, rest)

/-- Reads the two columns of a join with an equals sign between. -/
def read? (text : Bytes) : Option (JoinCondition × Bytes) := do
  let (leftTable, leftColumn, rest) ← readColumn? text
  let rest ← Token.symbol? equalsSign rest
  let (rightTable, rightColumn, rest) ← readColumn? rest
  return ({ leftTable, leftColumn, rightTable, rightColumn }, rest)

end JoinCondition

namespace Join

/-- Reads a SELECT statement on two tables; the word INNER changes nothing. -/
def read? (text : Bytes) : Option Join := do
  let (projection, rest) ← Projection.readHead? text
  let (left, rest) ← Token.identifier? rest
  -- The word is skipped if it is there.
  let rest := (Token.keyword? "INNER" rest).getD rest
  let rest ← Token.keyword? "JOIN" rest
  let (right, rest) ← Token.identifier? rest
  let rest ← Token.keyword? "ON" rest
  let (on, rest) ← JoinCondition.read? rest
  let condition ← Condition.readClause? rest
  return { projection, left, right, on, condition }

/-- Reads a SELECT statement on two tables or tells that the text is none. -/
def parse (text : Bytes) : Except ParseError Join := StatementKind.join.expect (read? text)

end Join

end TableStore
