import TableStore.Statement.Basic
import TableStore.Token
import TableStore.Value.Literal

/-! The WHERE clause: one column, an equals sign and one value. -/

namespace TableStore

namespace Condition

/-- A bare value may contain spaces, but no word that would join it to a second condition. -/
def isCompound (token : Bytes) : Bool :=
  !token.head?.any isQuote && (hasWord "AND" token || hasWord "OR" token)

/-- Reads a column, which may be qualified by a table. -/
def readColumn? (text : Bytes) : Option (Bytes × Bytes) := do
  let (name, rest) ← Token.identifier? text
  -- White space may stand on either side of the period.
  match Token.symbol? period rest with
  | none => return (name, rest)
  | some rest =>
    let (column, rest) ← Token.identifier? rest
    return (name ++ period :: column, rest)

/-- Reads a condition. -/
def read? (text : Bytes) : Option (Condition × Bytes) := do
  let (column, rest) ← readColumn? text
  let rest ← Token.symbol? equalsSign rest
  let (token, rest) ← Token.value? rest
  -- A bare value with a connective would be a second condition.
  guard !isCompound token
  return ({ column, value := readLiteral token }, rest)

/-- Reads the clause that may end a statement, and fails unless the statement ends after it. -/
def readClause? (text : Bytes) : Option (Option Condition) := do
  -- Without the word there is no condition, and the statement must end here.
  let (condition, rest) ← match Token.keyword? "WHERE" text with
    | none => pure (none, text)
    | some rest => (read? rest).map fun (condition, rest) => (some condition, rest)
  guard (Token.isAtEnd rest)
  return condition

end Condition

end TableStore
