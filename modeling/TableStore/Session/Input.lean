import TableStore.Bytes.Basic

/-! Lines typed in a session: commands of the session itself, or statements. -/

namespace TableStore

/-- What a line of a session asks for; commands come with the words after them. -/
inductive SessionInput where
  | blank
  | leave
  | help
  | tables (arguments : List Bytes)
  | schema (arguments : List Bytes)
  | logLevel (arguments : List Bytes)
  | statement (text : Bytes)
deriving DecidableEq

/-- What a line asks for by its first word, in any letter case. -/
def SessionInput.ofLine (line : Bytes) : SessionInput :=
  match words line with
  | [] => .blank
  | first :: arguments =>
    let command := lower first
    -- A word to leave by must stand alone.
    if arguments.isEmpty && (command == "exit" || command == "quit" || command == "q") then .leave
    else if command == "help" then .help
    else if command == "tables" then .tables arguments
    else if command == "schema" then .schema arguments
    else if command == "loglevel" then .logLevel arguments
    else .statement (trim line)

end TableStore
