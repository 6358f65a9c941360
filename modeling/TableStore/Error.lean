import TableStore.Column
import TableStore.Statement.Basic

/-! The causes for which a request fails, and the status, wording and report of each. -/

namespace TableStore

/-- How a request ended. -/
inductive Status where
  | ok
  | syntaxError
  | unsupportedStatement
  | tableNotFound
  | tableExists
  | primaryKeyMissing
  | duplicateColumn
  | columnNotFound
  | columnCountMismatch
  | typeMismatch
  | primaryKeyViolation
  | uniqueViolation
  | missingWhereClause
  | joinColumnNotFound
  | internalError
deriving DecidableEq

namespace Status

/-- The statuses in the order of their numbers. -/
def all : List Status :=
  [.ok, .syntaxError, .unsupportedStatement, .tableNotFound, .tableExists, .primaryKeyMissing,
    .duplicateColumn, .columnNotFound, .columnCountMismatch, .typeMismatch, .primaryKeyViolation,
    .uniqueViolation, .missingWhereClause, .joinColumnNotFound, .internalError]

/-- The name of a status. -/
def name : Status → Bytes
  | .ok => "OK"
  | .syntaxError => "SYNTAX_ERROR"
  | .unsupportedStatement => "UNSUPPORTED_STATEMENT"
  | .tableNotFound => "TABLE_NOT_FOUND"
  | .tableExists => "TABLE_EXISTS"
  | .primaryKeyMissing => "PRIMARY_KEY_MISSING"
  | .duplicateColumn => "DUPLICATE_COLUMN"
  | .columnNotFound => "COLUMN_NOT_FOUND"
  | .columnCountMismatch => "COLUMN_COUNT_MISMATCH"
  | .typeMismatch => "TYPE_MISMATCH"
  | .primaryKeyViolation => "PRIMARY_KEY_VIOLATION"
  | .uniqueViolation => "UNIQUE_VIOLATION"
  | .missingWhereClause => "MISSING_WHERE_CLAUSE"
  | .joinColumnNotFound => "JOIN_COLUMN_NOT_FOUND"
  | .internalError => "INTERNAL_ERROR"

end Status

/-- The name at a position of a list of names; a position outside it is unknown. -/
def nameAt (names : List Bytes) (index : Int) : Bytes :=
  if index < 0 then "UNKNOWN" else names.getD index.toNat "UNKNOWN"

/-- What is told of a failure; a number that belongs to no status leaves the status open. -/
structure Diagnostic where
  status : Option Status
  message : Bytes
  context : Bytes
deriving DecidableEq

namespace Diagnostic

/-- The diagnostic of a text that has the wrong form. -/
def malformed (message statement : Bytes) : Diagnostic :=
  { status := some .syntaxError, message, context := statement }

/-- The name of the status. -/
def statusName (diagnostic : Diagnostic) : Bytes := diagnostic.status.elim "UNKNOWN" Status.name

/-- The diagnostic on one line; it ends at the first NUL. -/
def report (diagnostic : Diagnostic) : Bytes :=
  -- The context is shown in parentheses, if there is one.
  let context : Bytes :=
    if diagnostic.context.isEmpty then [] else " (" ++ diagnostic.context ++ ")"
  let line : Bytes := "[" ++ diagnostic.statusName ++ "] " ++ diagnostic.message ++ context
  -- The text is handed on as one that ends at NUL.
  line.takeWhile (· != 0)

end Diagnostic

/-- Why a request failed. -/
inductive QueryError where
  | parse (cause : ParseError) (statement : Bytes)
  | tableNotFound (table : Bytes)
  | tableExists (table : Bytes)
  | primaryKeyUnknown (column : Bytes)
  | duplicateColumn (column : Bytes)
  | columnNotFound (column table : Bytes)
  | valueCount (expected actual : Nat)
  | conversion (cause : ConversionError)
  | columnConversion (column : Bytes) (cause : ConversionError)
  | primaryKeyTaken (value : Bytes)
  | uniqueTaken (column value : Bytes)
  | missingCondition (statement : Bytes)
  | joinColumnNotFound (column table : Bytes)
  | selfJoin (table : Bytes)
deriving DecidableEq

namespace QueryError

/-- The status of a parse error. -/
def parseStatus : ParseError → Status
  | .unsupported => .unsupportedStatement
  | .noPrimaryKey => .primaryKeyMissing
  | .malformed _ | .columnDefinition _ | .setClause _ => .syntaxError

/-- The status of a failed request. -/
def status : QueryError → Status
  | parse cause _ => parseStatus cause
  | tableNotFound _ => .tableNotFound
  | tableExists _ => .tableExists
  | primaryKeyUnknown _ => .primaryKeyMissing
  | duplicateColumn _ => .duplicateColumn
  | columnNotFound _ _ => .columnNotFound
  | valueCount _ _ => .columnCountMismatch
  | conversion _ => .typeMismatch
  | columnConversion _ _ => .typeMismatch
  | primaryKeyTaken _ => .primaryKeyViolation
  | uniqueTaken _ _ => .uniqueViolation
  | missingCondition _ => .missingWhereClause
  | joinColumnNotFound _ _ => .joinColumnNotFound
  | selfJoin _ => .unsupportedStatement

/-- The wording of a failed request. -/
def message : QueryError → Bytes
  | parse cause _ => cause.message
  | tableNotFound table => "Table '" ++ table ++ "' does not exist"
  | tableExists table => "Table '" ++ table ++ "' already exists"
  | primaryKeyUnknown column => "Primary key '" ++ column ++ "' not found in columns"
  | duplicateColumn column => "Duplicate column '" ++ column ++ "'"
  | columnNotFound column table => "Column '" ++ column ++ "' not found in table '" ++ table ++ "'"
  | valueCount expected actual =>
    "Expected " ++ decimal expected ++ " values, got " ++ decimal actual
  | conversion cause => cause.message
  | columnConversion column cause => "Type error for column '" ++ column ++ "': " ++ cause.message
  | primaryKeyTaken value => "Primary key violation: '" ++ value ++ "' already exists"
  | uniqueTaken column value =>
    "Unique constraint violation: '" ++ column ++ "' = '" ++ value ++ "' already exists"
  | missingCondition statement => statement ++ " without WHERE clause is not supported"
  | joinColumnNotFound column table =>
    "Column '" ++ column ++ "' not found in table '" ++ table ++ "'"
  | selfJoin table => "Self-join on table '" ++ table ++ "' is not supported"

/-- A text that is no statement is told as a whole, except for a missing key. -/
def context : QueryError → Bytes
  | parse .noPrimaryKey _ => []
  | parse _ statement => statement
  | _ => []

/-- What is told of a failed request. -/
def diagnostic (error : QueryError) : Diagnostic :=
  { status := some error.status, message := error.message, context := error.context }

end QueryError

end TableStore
