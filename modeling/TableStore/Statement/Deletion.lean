import TableStore.Statement.Condition

/-! The DELETE statement: the rows of a table that meet a condition. -/

namespace TableStore

/-- Rows to be removed. -/
structure Deletion where
  table : Bytes
  condition : Option Condition
deriving DecidableEq

namespace Deletion

/-- Reads a DELETE statement. -/
def read? (text : Bytes) : Option Deletion := do
  -- The condition may be missing here; the table refuses a statement without one.
  let rest ← Token.keyword? "DELETE" text
  let rest ← Token.keyword? "FROM" rest
  let (table, rest) ← Token.identifier? rest
  let condition ← Condition.readClause? rest
  return { table, condition }

/-- Reads a DELETE statement or tells that the text is none. -/
def parse (text : Bytes) : Except ParseError Deletion := StatementKind.delete.expect (read? text)

end Deletion

end TableStore
