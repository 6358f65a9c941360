import TableStore.Statement.Condition

/-! The UPDATE statement: new values for some columns of the rows that meet a condition. -/

namespace TableStore

/-- Values to be written to the rows that meet a condition. -/
structure Update where
  table : Bytes
  assignments : List Assignment
  condition : Option Condition
deriving DecidableEq

namespace Assignment

/-- Reads a column and its value, cut at the first equals sign. -/
def read? (item : Bytes) : Option Assignment := do
  -- A second equals sign belongs to the value.
  let (column, value) ← splitAtFirst? equalsSign item
  let column := trim column
  guard (isIdentifier column)
  return { column, value := readLiteral value }

/-- Reads one item of a SET clause. -/
def parse (item : Bytes) : Except ParseError Assignment :=
  let item := trim item
  (read? item).elim (.error (.setClause item)) .ok

end Assignment

namespace Update

/--
The text of the SET clause and what follows it: the clause ends at the word WHERE, or else with
the statement, from which one semicolon is taken.
-/
def splitClause (text : Bytes) : Bytes × Bytes :=
  -- The word is searched outside quotes, so that values may hold it.
  match splitAtWord? "WHERE" text with
  | some (clause, rest) => (clause, rest)
  | none =>
    let clause := trim text
    (if clause.getLast? = some semicolon then clause.dropLast else clause, [])

/-- Reads the table, the text of the SET clause, and what follows it. -/
def readHead? (text : Bytes) : Option (Bytes × Bytes × Bytes) := do
  let rest ← Token.keyword? "UPDATE" text
  let (table, rest) ← Token.identifier? rest
  let rest ← Token.keyword? "SET" rest
  let (clause, rest) := splitClause rest
  -- A clause of white space alone is no clause.
  guard !(trim clause).isEmpty
  return (table, clause, rest)

/-- Reads an UPDATE statement; its assignments are examined before what follows them. -/
def parse (text : Bytes) : Except ParseError Update := do
  -- A bad assignment is told even if the condition is bad as well.
  let (table, clause, rest) ← StatementKind.update.expect (readHead? text)
  let assignments ← (splitOutsideQuotes comma clause).mapM Assignment.parse
  let condition ← StatementKind.update.expect (Condition.readClause? rest)
  return { table, assignments, condition }

end Update

end TableStore
