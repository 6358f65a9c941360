import TableStore.Binary64.Shortest

/-! Stored values: 64-bit integers, binary64 numbers and texts. -/

namespace TableStore

/-- A stored value of one of three kinds. -/
inductive Value where
  | integer (number : Int64)
  | float (number : Binary64)
  | text (bytes : Bytes)
deriving DecidableEq

/-- A value that nothing has been written to is the integer zero. -/
instance : Inhabited Value := ⟨.integer 0⟩

/-- A value was asked for as a kind that it is not. -/
inductive KindError where
  | notInteger
  | notNumeric
  | notText
deriving DecidableEq

/-- The wording of a kind error. -/
def KindError.message : KindError → Bytes
  | .notInteger => "Value is not an integer"
  | .notNumeric => "Value is not numeric"
  | .notText => "Value is not text"

namespace Value

/-- Whether a value is an integer. -/
def isInteger : Value → Bool
  | .integer _ => true
  | _ => false

/-- Whether a value is a text. -/
def isText : Value → Bool
  | .text _ => true
  | _ => false

/-- Whether a value is a number of either kind. -/
def isNumeric (value : Value) : Bool := !value.isText

/-- The integer that a value is. -/
def asInteger : Value → Except KindError Int64
  | .integer number => .ok number
  | _ => .error .notInteger

/-- The number that a value is, an integer being rounded to the nearest one. -/
def asFloat : Value → Except KindError Binary64
  | .float number => .ok number
  | .integer number => .ok (Binary64.ofInt number.toInt)
  | .text _ => .error .notNumeric

/-- The text that a value is. -/
def asText : Value → Except KindError Bytes
  | .text bytes => .ok bytes
  | _ => .error .notText

/-- A value as text: numbers in decimal, texts as they are. -/
def toText : Value → Bytes
  | .integer number => integerText number.toInt
  | .float number => number.text
  | .text bytes => bytes

/-- A value as a log line shows it, with a text between apostrophes. -/
def describe : Value → Bytes
  | .text bytes => apostrophe :: bytes ++ [apostrophe]
  | value => value.toText

end Value

end TableStore
