import TableStore.Value.Basic

/-! The parts that statements share, and the ways in which a text fails to be a statement. -/

namespace TableStore

/-- The kinds of statement. -/
inductive StatementKind where
  | createTable
  | insert
  | select
  | join
  | update
  | delete
deriving DecidableEq

namespace StatementKind

/-- The kinds of statement in the order of their numbers. -/
def all : List StatementKind := [.createTable, .insert, .select, .join, .update, .delete]

/-- The name of a kind of statement. -/
def name : StatementKind → Bytes
  | .createTable => "CREATE TABLE"
  | .insert => "INSERT"
  | .select => "SELECT"
  | .join => "SELECT JOIN"
  | .update => "UPDATE"
  | .delete => "DELETE"

end StatementKind

/-- The condition that a column holds a value; in a join the column is qualified by its table. -/
structure Condition where
  column : Bytes
  value : Value
deriving DecidableEq

/-- A column and the value that it is set to. -/
structure Assignment where
  column : Bytes
  value : Value
deriving DecidableEq

/-- The columns that a query asks for. -/
inductive Projection where
  | every
  | named (columns : List Bytes)
deriving DecidableEq

namespace Projection

/-- An empty list, and a list of one asterisk, ask for every column. -/
def ofNames (names : List Bytes) : Projection :=
  if names = [] ∨ names = [utf8 "*"] then .every else .named names

/-- The names as a statement lists them. -/
def names : Projection → List Bytes
  | .every => [utf8 "*"]
  | .named columns => columns

end Projection

/-- Why a text is not a statement. -/
inductive ParseError where
  | unsupported
  | malformed (kind : StatementKind)
  | columnDefinition (definition : Bytes)
  | setClause (item : Bytes)
  | noPrimaryKey
deriving DecidableEq

/-- The wording of a parse error. -/
def ParseError.message : ParseError → Bytes
  | .unsupported => "Unsupported query type"
  | .malformed .createTable => "Invalid CREATE TABLE syntax"
  | .malformed .insert => "Invalid INSERT syntax"
  | .malformed .select => "Invalid SELECT syntax"
  | .malformed .join =>
    "Invalid JOIN syntax. Expected: SELECT ... FROM table1 JOIN table2 ON table1.col = table2.col"
  | .malformed .update => "Invalid UPDATE syntax"
  | .malformed .delete => "Invalid DELETE syntax"
  | .columnDefinition definition => "Invalid column definition: " ++ definition
  | .setClause item => "Invalid SET clause: " ++ item
  | .noPrimaryKey => "No PRIMARY KEY specified"

/-- What was read, or the error that a statement of this kind has the wrong form. -/
def StatementKind.expect {α : Type} (kind : StatementKind) (read : Option α) :
    Except ParseError α :=
  read.elim (.error (.malformed kind)) .ok

end TableStore
