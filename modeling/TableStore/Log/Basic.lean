import TableStore.Bytes.Basic

/-! Log entries and the levels that grade them. -/

namespace TableStore

/-- How grave an entry is. -/
inductive LogLevel where
  | debug
  | info
  | warn
  | error
  | fatal
deriving DecidableEq

namespace LogLevel

/-- The levels from the least to the most grave. -/
def all : List LogLevel := [.debug, .info, .warn, .error, .fatal]

/-- The name of a level. -/
def name : LogLevel → Bytes
  | .debug => "DEBUG"
  | .info => "INFO"
  | .warn => "WARN"
  | .error => "ERROR"
  | .fatal => "FATAL"

/-- The place of a level in the order of gravity. -/
def rank : LogLevel → Nat
  | .debug => 0
  | .info => 1
  | .warn => 2
  | .error => 3
  | .fatal => 4

/-- The level that a text names, in any letter case. -/
def ofName? (text : Bytes) : Option LogLevel := all.find? fun level => level.name == upper text

/-- Every level is found by its name. -/
theorem ofName?_name (level : LogLevel) : ofName? level.name = some level := by
  -- The names differ, and each is in capitals already.
  cases level <;> decide

end LogLevel

/-- One message for the log. -/
structure LogEntry where
  level : LogLevel
  message : Bytes
deriving DecidableEq

/-- Whether an entry is grave enough for a log of a given level. -/
def LogEntry.reaches (entry : LogEntry) (level : LogLevel) : Bool := level.rank ≤ entry.level.rank

/-- An entry as a line of the log, without the time at which it was written. -/
def LogEntry.line (entry : LogEntry) : Bytes :=
  "[" ++ entry.level.name ++ "] " ++ entry.message ++ [lineFeed]

end TableStore
