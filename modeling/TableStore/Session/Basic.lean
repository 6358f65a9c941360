import TableStore.Database.Execute
import TableStore.Session.Grid
import TableStore.Session.Input

/-! Sessions: a database worked on line by line, with text in answer to each line. -/

namespace TableStore

/-- The state of a session. -/
structure Session where
  database : Database
  level : LogLevel

/-- What one line brings about. -/
structure Turn where
  session : Session
  output : Bytes
  log : List LogEntry
  continues : Bool

/-- The lines that explain the commands and the statements. -/
def helpLines : List Bytes := [
  "Commands:",
  "  help                      - show this help",
  "  tables                    - list tables",
  "  schema <table>            - show columns and constraints of a table",
  "  loglevel [DEBUG|INFO|...] - show or set log verbosity",
  "  exit/quit/q               - leave",
  "",
  "SQL:",
  "  CREATE TABLE <name> (col TYPE [PRIMARY KEY] [UNIQUE], ...);",
  "  INSERT INTO <table> VALUES (v1, v2, ...);",
  "  SELECT *|col[, ...] FROM <table> [WHERE col = value];",
  "  SELECT ... FROM a JOIN b ON a.col = b.col [WHERE t.col = value];",
  "  UPDATE <table> SET col = value[, ...] WHERE col = value;",
  "  DELETE FROM <table> WHERE col = value;",
  "",
  "Types: INT, FLOAT (REAL, DOUBLE), TEXT (VARCHAR, CHAR, STRING)"]

/-- The text of a reply. -/
def Reply.text (reply : Reply) : Bytes :=
  if reply.isSuccess then
    -- A reply without columns has nothing to show, and one without rows says so.
    let rows : Bytes :=
      if reply.relation.columns.isEmpty then []
      else if reply.relation.rows.isEmpty then "No rows returned.\n"
      else reply.relation.grid
    "OK: " ++ reply.message ++ "\n" ++ rows
  else "Error [" ++ reply.status.name ++ "]: " ++ reply.message ++ "\n"

/-- Texts under the columns of a list, the last one as long as it is. -/
def listLine (number : Bytes) (columns : List (Nat × Bytes)) (last : Bytes) : Bytes :=
  "  " ++ padRight 3 number ++ columns.flatMap (fun (width, text) => padRight width text) ++
    last ++ "\n"

/-- The list of the tables. -/
def Database.listing (db : Database) : Bytes :=
  -- Tables are numbered from one, in the order of their names.
  let tables := db.tables.toList
  if tables.isEmpty then "(no tables yet)\n"
  else
    "Tables (" ++ decimal tables.length ++ "):\n" ++
    listLine "#" [(18, "Name"), (10, "Columns")] "Rows" ++
    "  ----------------------------------------\n" ++
    (tables.zipIdx 1).flatMap fun ((_, table), number) =>
      listLine (decimal number)
        [(18, table.name), (10, decimal table.columns.length)] (decimal table.rows.size)

/-- The constraint on a column as the list of the columns shows it. -/
def Table.constraintText (table : Table) (column : Bytes) : Bytes :=
  if column == table.primaryKey then "PRIMARY KEY"
  else if table.uniqueColumns.contains column then "UNIQUE"
  else "-"

/-- The list of the columns. -/
def Table.listing (table : Table) : Bytes :=
  -- The headline and the rule are as wide as the columns below them.
  "Table: " ++ table.name ++ " (" ++ decimal table.rows.size ++ " rows)\n" ++
  listLine "#" [(18, "Name"), (16, "Type"), (10, "Stored")] "Constraints" ++
  "  ----------------------------------------------------------------------\n" ++
  (table.columns.zipIdx 1).flatMap fun (column, number) =>
    listLine (decimal number)
      [(18, column.name), (16, column.typeName), (10, column.type.name)]
      (table.constraintText column.name)

namespace Session

/-- A session on an empty database. -/
def start (level : LogLevel) : Session := { database := .empty, level }

/-- A turn that only prints. -/
def say (session : Session) (output : Bytes) : Turn :=
  { session, output, log := [], continues := true }

/-- Shows the level of the log, or sets it. -/
def chooseLevel (session : Session) : List Bytes → Turn
  | [] => session.say ("Log level: " ++ session.level.name ++ "\n")
  -- Arguments behind the first are ignored.
  | name :: _ =>
    match LogLevel.ofName? name with
    | some level => say { session with level } ("Log level set to " ++ level.name ++ "\n")
    | none =>
      session.say ("Unknown log level '" ++ name ++ "' (use DEBUG/INFO/WARN/ERROR/FATAL)\n")

/-- Lists the columns of a table. -/
def showSchema (session : Session) : List Bytes → Turn
  -- The command takes exactly one name.
  | [name] =>
    match session.database.table? name with
    | some table => session.say table.listing
    | none => session.say ("No table named '" ++ name ++ "'.\n")
  | _ => session.say "Usage: schema <table>\n"

/-- Does what a line asks for. -/
def answer (session : Session) : SessionInput → Turn
  -- Only a line that leaves ends the session.
  | .blank => session.say []
  | .leave => { session.say [] with continues := false }
  | .help => session.say (helpLines.flatMap (· ++ [lineFeed]))
  | .tables [] => session.say session.database.listing
  | .tables _ => session.say "Usage: tables\n"
  | .schema arguments => session.showSchema arguments
  | .logLevel arguments => session.chooseLevel arguments
  | .statement text =>
    -- Everything else is left to the database.
    let outcome := session.database.execute text
    { session := { session with database := outcome.state }
      output := (Reply.ofResult outcome.result).text
      log := outcome.log
      continues := true }

/-- Takes a line of a session. -/
def handle (session : Session) (line : Bytes) : Turn := session.answer (.ofLine line)

end Session

end TableStore
