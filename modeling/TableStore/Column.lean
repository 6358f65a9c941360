import TableStore.Binary64.Numeral
import TableStore.Value.Basic

/-! Columns: a name, a declared type, and the values that the type accepts and converts. -/

namespace TableStore

/-- How the values of a column are stored. -/
inductive DataType where
  | int
  | float
  | text
  | unknown
deriving DecidableEq

namespace DataType

/-- The data types in the order of their numbers. -/
def all : List DataType := [.int, .float, .text, .unknown]

/-- The name of a data type. -/
def name : DataType → Bytes
  | .int => "INT"
  | .float => "FLOAT"
  | .text => "TEXT"
  | .unknown => "UNKNOWN"

/-- The data type that a declaration names, whatever follows an opening parenthesis. -/
def ofDeclaration (declared : Bytes) : DataType :=
  -- What stands behind the parenthesis, as in VARCHAR(32), does not count.
  let base := upper (declared.takeWhile (· != openParenthesis))
  if base = utf8 "INT" then .int
  else if base ∈ [utf8 "TEXT", utf8 "VARCHAR", utf8 "CHAR", utf8 "STRING"] then .text
  else if base ∈ [utf8 "FLOAT", utf8 "REAL", utf8 "DOUBLE"] then .float
  else .unknown

/-- Whether a column of this type may hold a value as it stands. -/
def accepts : DataType → Value → Bool
  | .int, value => value.isInteger
  | .text, value => value.isText
  | .float, value => value.isNumeric
  | .unknown, _ => true

end DataType

/-- A column of a table; the declared type is kept in capitals. -/
structure Column where
  name : Bytes
  type : DataType
  typeName : Bytes
deriving DecidableEq

/-- A value that its column cannot hold, with the text of both. -/
structure ConversionError where
  raw : Bytes
  typeName : Bytes
deriving DecidableEq

/-- The wording of a conversion error. -/
def ConversionError.message (error : ConversionError) : Bytes :=
  "Cannot convert '" ++ error.raw ++ "' to " ++ error.typeName

namespace Column

/-- The column of a name and a declared type. -/
def declare (name declared : Bytes) : Column :=
  let typeName := upper declared
  { name, type := .ofDeclaration typeName, typeName }

/-- The integer that a value becomes: numbers lose their fraction, texts must denote an integer. -/
def toInteger? : Value → Option Int64
  | .integer number => some number
  | .float number => if number.isFinite then toInt64? number.truncate else none
  | .text bytes => readInteger bytes

/-- The number that a value becomes: texts must denote one. -/
def toFloat? : Value → Option Binary64
  | .integer number => some (Binary64.ofInt number.toInt)
  | .float number => some number
  | .text bytes => Binary64.read bytes

/-- The value that a column stores for a given one. -/
def convert (column : Column) (value : Value) : Except ConversionError Value :=
  -- The error tells the value as it was given, and the type as it was declared.
  let refused : ConversionError := { raw := value.toText, typeName := column.typeName }
  match column.type with
  | .int => (toInteger? value).elim (.error refused) (.ok <| .integer ·)
  | .float => (toFloat? value).elim (.error refused) (.ok <| .float ·)
  | .text => .ok (.text value.toText)
  | .unknown => .ok value

end Column

end TableStore
