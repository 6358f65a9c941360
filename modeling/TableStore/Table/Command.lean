import TableStore.Log.Basic
import TableStore.Table.Operations

/-! What can be asked of a table, and what it answers and logs. -/

namespace TableStore

/-- What can be asked of a table. -/
inductive TableCommand where
  | insert (values : List Value)
  | select (projection : Projection) (condition : Option Condition)
  | update (assignments : List Assignment) (condition : Option Condition)
  | remove (condition : Option Condition)

/-- What a table answers; rows are counted where they are not shown. -/
inductive TableAnswer where
  | inserted
  | selected (relation : Relation)
  | updated (count : Nat)
  | removed (count : Nat)
deriving DecidableEq

/-- The state after a request, the entries for the log, and the answer or the error. -/
structure Outcome (σ α : Type) where
  state : σ
  log : List LogEntry
  result : Except QueryError α

/-- A condition as the log shows it. -/
def Condition.describe : Option Condition → Bytes
  | none => "<none>"
  | some condition => condition.column ++ utf8 " = " ++ condition.value.describe

/-- Assignments as the log shows them. -/
def Assignment.describeAll (assignments : List Assignment) : Bytes :=
  joinWith ", " (assignments.map fun assignment =>
    assignment.column ++ utf8 "=" ++ assignment.value.describe)

namespace Table

/-- An entry about an operation on a table. -/
def logEntry (table : Table) (operation details : Bytes) : LogEntry :=
  { level := .debug
    message := "[" ++ operation ++ "] table=" ++ table.name ++ " " ++ details }

/-- The entry of a write that has a condition, whether or not the write succeeds. -/
def logWrite (table : Table) (operation details : Bytes) (condition : Option Condition) :
    List LogEntry :=
  -- Without a condition the write is refused before anything is logged.
  if condition.isNone then []
  else [table.logEntry operation (details ++ "predicate=" ++ Condition.describe condition)]

/-- The outcome of a write: the new table if it succeeds, and the old one if it fails. -/
def outcome {α : Type} (table : Table) (log : List LogEntry)
    (written : Except QueryError (α × Table)) : Outcome Table α :=
  -- A failure keeps what had been logged.
  match written with
  | .ok (answer, written) => { state := written, log, result := .ok answer }
  | .error error => { state := table, log, result := .error error }

/-- Does what is asked of a table. -/
def perform (table : Table) : TableCommand → Outcome Table TableAnswer
  | .insert values =>
    -- The row takes the position behind the last one.
    let position := decimal table.rows.size
    match table.insert values with
    | .ok inserted =>
      { state := inserted
        log := [table.logEntry "INSERT" ("position=" ++ position)]
        result := .ok .inserted }
    | .error error => { state := table, log := [], result := .error error }
  | .select projection condition =>
    -- A query changes nothing, and is logged when it has been answered.
    match table.select projection condition with
    | .ok relation =>
      let details := "predicate=" ++ Condition.describe condition ++
        " rows=" ++ decimal relation.rows.length
      { state := table
        log := [table.logEntry "SELECT" details]
        result := .ok (.selected relation) }
    | .error error => { state := table, log := [], result := .error error }
  | .update assignments condition =>
    -- Writes with a condition are logged before they are run.
    let details := "assignments=" ++ Assignment.describeAll assignments ++ " "
    table.outcome (table.logWrite "UPDATE" details condition)
      ((table.update assignments condition).map fun (count, written) => (.updated count, written))
  | .remove condition =>
    table.outcome (table.logWrite "DELETE" [] condition)
      ((table.remove condition).map fun (count, written) => (.removed count, written))

end Table

end TableStore
