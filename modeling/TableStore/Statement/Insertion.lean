import TableStore.Statement.Basic
import TableStore.Token
import TableStore.Value.Literal

/-! The INSERT statement: a table and the values of one row. -/

namespace TableStore

/-- A row to be inserted. -/
structure Insertion where
  table : Bytes
  values : List Value
deriving DecidableEq

namespace Insertion

/-- The values between commas; nothing but white space after the last comma is no value. -/
def readValues (body : Bytes) : List Value :=
  -- Commas within quotes belong to the values.
  let segments := splitOutsideQuotes comma body
  let segments :=
    if segments.getLast?.any fun last => (trim last).isEmpty then segments.dropLast else segments
  segments.map readLiteral

/-- Reads an INSERT statement. -/
def read? (text : Bytes) : Option Insertion := do
  -- The values end at the last parenthesis of the statement.
  let rest ← Token.keyword? "INSERT" text
  let rest ← Token.keyword? "INTO" rest
  let (table, rest) ← Token.identifier? rest
  let rest ← Token.keyword? "VALUES" rest
  let rest ← Token.symbol? openParenthesis rest
  let (body, rest) ← splitAtLast? closeParenthesis rest
  guard (Token.isAtEnd rest)
  return { table, values := readValues body }

/-- Reads an INSERT statement or tells that the text is none. -/
def parse (text : Bytes) : Except ParseError Insertion := StatementKind.insert.expect (read? text)

end Insertion

end TableStore
