import TableStore.Statement.Basic
import TableStore.Token

/-! The CREATE TABLE statement: a table, its columns and their constraints. -/

namespace TableStore

/-- A column as a definition declares it. -/
structure ColumnClause where
  name : Bytes
  typeName : Bytes
  isPrimary : Bool
  isUnique : Bool
deriving DecidableEq

/-- A table to be created. -/
structure TableDefinition where
  table : Bytes
  columns : List ColumnClause
  primaryKey : Bytes
  uniqueColumns : List Bytes
deriving DecidableEq

/-- The parts of a text between the commas outside parentheses, from a given depth. -/
def splitOutsideParentheses (depth : Nat) : Bytes → List Bytes
  | [] => [[]]
  | byte :: rest =>
    -- Only a comma outside all parentheses separates.
    if byte == comma && depth == 0 then [] :: splitOutsideParentheses 0 rest
    else
      let depth :=
        if byte == openParenthesis then depth + 1
        else if byte == closeParenthesis then depth - 1
        else depth
      (splitOutsideParentheses depth rest).modifyHead (byte :: ·)

namespace ColumnClause

/-- Reads a name and a type; the constraints may stand anywhere in the definition. -/
def read? (definition : Bytes) : Option ColumnClause :=
  match words definition with
  -- The first two words are the name and the type.
  | name :: typeName :: _ =>
    let text := upper definition
    if isIdentifier name then
      some {
        name
        typeName := upper typeName
        isPrimary := occursIn "PRIMARY" text && occursIn "KEY" text
        isUnique := occursIn "UNIQUE" text }
    else none
  | _ => none

/-- Reads one of the definitions of a table. -/
def parse (definition : Bytes) : Except ParseError ColumnClause :=
  let definition := trim definition
  (read? definition).elim (.error (.columnDefinition definition)) .ok

end ColumnClause

namespace TableDefinition

/-- The table of a list of columns; of several primary keys the last one counts. -/
def ofClauses (table : Bytes) (clauses : List ColumnClause) :
    Except ParseError TableDefinition :=
  -- Several clauses may be marked as the key.
  match (clauses.filter (·.isPrimary)).getLast? with
  | none => .error .noPrimaryKey
  | some key => .ok {
      table
      columns := clauses.map fun clause => { clause with isPrimary := clause.name == key.name }
      primaryKey := key.name
      uniqueColumns := ((clauses.filter (·.isUnique)).map (·.name)).eraseDups }

/-- Reads the name of the table and the text between the outermost parentheses. -/
def readBody? (text : Bytes) : Option (Bytes × Bytes) := do
  -- The body ends at the last parenthesis, so that types may have their own.
  let rest ← Token.keyword? "CREATE" text
  let rest ← Token.keyword? "TABLE" rest
  let (table, rest) ← Token.identifier? rest
  let rest ← Token.symbol? openParenthesis rest
  let (body, rest) ← splitAtLast? closeParenthesis rest
  guard (Token.isAtEnd rest)
  return (table, body)

/-- Reads a CREATE TABLE statement. -/
def parse (text : Bytes) : Except ParseError TableDefinition := do
  -- All clauses are read before the key is chosen.
  let (table, body) ← StatementKind.createTable.expect (readBody? text)
  let clauses ← (splitOutsideParentheses 0 body).mapM ColumnClause.parse
  ofClauses table clauses

end TableDefinition

end TableStore
