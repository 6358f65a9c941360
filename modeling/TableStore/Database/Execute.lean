import TableStore.Database.Basic
import TableStore.Database.Join
import TableStore.Statement.Parse

/-! Running statements against a database, and the replies to them. -/

namespace TableStore

/-- What a statement that succeeds answers. -/
inductive Answer where
  | created (table : Bytes)
  | inserted (table : Bytes)
  | selected (relation : Relation)
  | joined (relation : Relation)
  | updated (count : Nat)
  | deleted (count : Nat)
deriving DecidableEq

namespace Answer

/-- A number of rows after a verb. -/
def rowsMessage (verb : Bytes) (count : Nat) : Bytes := verb ++ " " ++ decimal count ++ " row(s)"

/-- The wording of an answer. -/
def message : Answer → Bytes
  | created table => "Table '" ++ table ++ "' created successfully"
  | inserted table => "Inserted 1 row into '" ++ table ++ "'"
  | selected relation => rowsMessage "Selected" relation.rows.length
  | joined relation => rowsMessage "Selected" relation.rows.length ++ " from JOIN"
  | updated count => rowsMessage "Updated" count
  | deleted count => rowsMessage "Deleted" count

/-- The rows of an answer; only queries have columns. -/
def relation : Answer → Relation
  | selected relation | joined relation => relation
  | created _ | inserted _ | updated _ | deleted _ => { columns := [], rows := [] }

end Answer

/-- What is told of a statement that has been run. -/
structure Reply where
  status : Status
  message : Bytes
  relation : Relation
deriving DecidableEq

namespace Reply

/-- The reply to a result. -/
def ofResult : Except QueryError Answer → Reply
  | .ok answer => { status := .ok, message := answer.message, relation := answer.relation }
  | .error error =>
    { status := error.status, message := error.message, relation := { columns := [], rows := [] } }

/-- Whether the statement succeeded. -/
def isSuccess (reply : Reply) : Bool := reply.status == .ok

end Reply

/-- The answer to a statement on one table that says what the table answered. -/
def TableAnswer.toAnswer (table : Bytes) : TableAnswer → Answer
  | .inserted => .inserted table
  | .selected relation => .selected relation
  | .updated count => .updated count
  | .removed count => .deleted count

/-- The entry about a request that was refused. -/
def logRejected (request : Bytes) (error : QueryError) : LogEntry :=
  { level := .warn, message := request ++ " rejected: " ++ error.diagnostic.report }

/-- What a definition declares its table as. -/
def TableDefinition.schema (definition : TableDefinition) : Schema where
  name := definition.table
  columns := definition.columns.map fun column => Column.declare column.name column.typeName
  primaryKey := definition.primaryKey
  uniqueColumns := definition.uniqueColumns

namespace Database

/-- Runs a statement on the table that it names. -/
def runOn (db : Database) (name : Bytes) (command : TableCommand) : Outcome Database Answer :=
  -- A table that there is not logs nothing.
  match db.act name command with
  | some outcome => { outcome with result := outcome.result.map (·.toAnswer name) }
  | none => { state := db, log := [], result := .error (.tableNotFound name) }

/-- Adds a table, or leaves the database as it is. -/
def runCreate (db : Database) (schema : Schema) : Outcome Database Answer :=
  match db.create schema with
  | .ok created =>
    { state := created, log := [logCreated schema], result := .ok (.created schema.name) }
  | .error error => { state := db, log := [], result := .error error }

/-- Answers a query on two tables. -/
def join (db : Database) (join : Join) : Except QueryError Relation := do
  let left ← (db.table? join.left).elim (.error (.tableNotFound join.left)) .ok
  let right ← (db.table? join.right).elim (.error (.tableNotFound join.right)) .ok
  -- The names of the joined columns could not tell a table from itself.
  if join.left == join.right then throw (.selfJoin join.left)
  left.join right join

/-- The entry about a join that was answered. -/
def logJoined (join : Join) (relation : Relation) : LogEntry :=
  { level := .debug
    message := "[JOIN] left=" ++ join.left ++ " right=" ++ join.right ++ " on=" ++ join.keys.1 ++
      "=" ++ join.keys.2 ++ " rows=" ++ decimal relation.rows.length }

/-- Runs a query on two tables. -/
def runJoin (db : Database) (join : Join) : Outcome Database Answer :=
  -- A join reads two tables and changes neither.
  match db.join join with
  | .ok relation =>
    { state := db, log := [logJoined join relation], result := .ok (.joined relation) }
  | .error error => { state := db, log := [], result := .error error }

/-- Runs a statement. -/
def run (db : Database) : Statement → Outcome Database Answer
  -- All statements but two are commands to one table.
  | .createTable definition => db.runCreate definition.schema
  | .insert insertion => db.runOn insertion.table (.insert insertion.values)
  | .select selection =>
    db.runOn selection.table (.select selection.projection selection.condition)
  | .join join => db.runJoin join
  | .update update => db.runOn update.table (.update update.assignments update.condition)
  | .delete deletion => db.runOn deletion.table (.remove deletion.condition)

/-- The outcome of a request with one more entry if it was refused. -/
def logFailure (request : Bytes) (outcome : Outcome Database Answer) : Outcome Database Answer :=
  -- A refusal is logged last, behind what had been logged before it.
  match outcome.result with
  | .ok _ => outcome
  | .error error => { outcome with log := outcome.log ++ [logRejected request error] }

/-- Reads and runs a statement. -/
def execute (db : Database) (text : Bytes) : Outcome Database Answer :=
  logFailure "Statement" <|
    -- A text that is no statement is refused with its parse error.
    match Statement.parse text with
    | .ok statement => db.run statement
    | .error cause => { state := db, log := [], result := .error (.parse cause text) }

/-- Adds a table without a statement. -/
def createTable (db : Database) (schema : Schema) : Outcome Database Answer :=
  logFailure ("CREATE TABLE " ++ schema.name) (db.runCreate schema)

end Database

end TableStore
