import TableStore.Log.Logger
import TableStore.Session.Basic

/-! Whole sessions: the lines of an input up to the one that leaves. -/

namespace TableStore

/--
What a session leaves behind: its last state, what it printed, what it asked of the log, and the
status that it ends with, which is that of a success unless something else is said.
-/
structure Transcript where
  session : Session
  output : Bytes
  log : List LogCommand
  status : UInt32 := 0

/-- What stands before every line that is read. -/
def prompt : Bytes := "simpledb> "

/-- What a session prints first. -/
def banner : Bytes := "SimpleDB REPL - type 'help'\n"

/-- The entry that opens a session. -/
def logStarted : LogEntry := { level := .info, message := "Starting REPL" }

/-- The entry that closes a session. -/
def logLeft : LogEntry := { level := .info, message := "Exiting REPL" }

/-- What a turn asks of the log. -/
def Turn.logCommands (turn : Turn) : List LogCommand :=
  turn.log.map .write ++ [.setLevel turn.session.level]

namespace Session

/-- Takes lines in order until one leaves; there is a prompt for the end of the input too. -/
def handleAll (session : Session) : List Bytes → Transcript
  | [] => { session, output := prompt, log := [] }
  | line :: rest =>
    -- What comes behind a line that leaves is not read.
    let turn := session.handle line
    let after : Transcript :=
      if turn.continues then turn.session.handleAll rest
      else { session := turn.session, output := [], log := [] }
    { after with
      output := prompt ++ turn.output ++ after.output
      log := turn.logCommands ++ after.log }

/-- Runs a session on an input. -/
def run (session : Session) (input : Bytes) : Transcript :=
  -- The banner comes before the first prompt, and the log tells start and end.
  let transcript := session.handleAll (lines input)
  { transcript with
    output := banner ++ transcript.output
    log := .write logStarted :: transcript.log ++ [.write logLeft] }

end Session

end TableStore
