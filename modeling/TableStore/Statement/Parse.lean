import TableStore.Statement.Definition
import TableStore.Statement.Deletion
import TableStore.Statement.Insertion
import TableStore.Statement.Selection
import TableStore.Statement.Update

/-! Statements, told apart by their leading words. -/

namespace TableStore

/-- A statement of any kind. -/
inductive Statement where
  | createTable (definition : TableDefinition)
  | insert (insertion : Insertion)
  | select (selection : Selection)
  | join (join : Join)
  | update (update : Update)
  | delete (deletion : Deletion)
deriving DecidableEq

/-- The kind that a text has by its leading words, and by the word JOIN for a query. -/
def StatementKind.ofText? (text : Bytes) : Option StatementKind :=
  -- Two kinds are told by one word, the others by two.
  let starts (first : Bytes) := (Token.keyword? first text).isSome
  let startsWith (first second : Bytes) :=
    ((Token.keyword? first text).bind (Token.keyword? second)).isSome
  if startsWith "CREATE" "TABLE" then some .createTable
  else if startsWith "INSERT" "INTO" then some .insert
  else if starts "SELECT" then some (if hasWord "JOIN" text then .join else .select)
  else if starts "UPDATE" then some .update
  else if startsWith "DELETE" "FROM" then some .delete
  else none

namespace Statement

/-- The kind of a statement. -/
def kind : Statement → StatementKind
  | createTable _ => .createTable
  | insert _ => .insert
  | select _ => .select
  | join _ => .join
  | update _ => .update
  | delete _ => .delete

/-- Reads a text as a statement of a given kind. -/
def parseAs (kind : StatementKind) (text : Bytes) : Except ParseError Statement :=
  match kind with
  | .createTable => createTable <$> TableDefinition.parse text
  | .insert => insert <$> Insertion.parse text
  | .select => select <$> Selection.parse text
  | .join => join <$> Join.parse text
  | .update => update <$> Update.parse text
  | .delete => delete <$> Deletion.parse text

/-- Reads a statement. -/
def parse (text : Bytes) : Except ParseError Statement :=
  -- The kind is settled first, and the text is then read as this kind only.
  match StatementKind.ofText? text with
  | some kind => parseAs kind text
  | none => .error .unsupported

end Statement

end TableStore
