import TableStore.Log.Basic
import TableStore.Log.Files

/-! The log: a level, a console that can be switched off, and at most one open file. -/

namespace TableStore

/-- The state of the log together with every line that was written. -/
structure Logger where
  level : LogLevel
  console : Bool
  file : Option Bytes
  written : List Bytes
  files : Files

/-- What can be asked of the log. -/
inductive LogCommand where
  | setLevel (level : LogLevel)
  | setConsole (on : Bool)
  | openFile (path : Bytes)
  | closeFile
  | write (entry : LogEntry)

namespace Logger

/-- A log that writes entries of the level INFO and above to the console alone. -/
def start (files : Files) : Logger :=
  { level := .info, console := true, file := none, written := [], files }

/-- All that was written to the console. -/
def consoleText (logger : Logger) : Bytes := logger.written.flatten

/-- Writes an entry that reaches the level to the console and to the open file. -/
def write (logger : Logger) (entry : LogEntry) : Logger :=
  -- The level is the same for both, the console and the file.
  if entry.reaches logger.level then
    let written := if logger.console then logger.written ++ [entry.line] else logger.written
    let files := logger.file.elim logger.files (logger.files.append · entry.line)
    { logger with written, files }
  else logger

/-- Opens a file to write at its end in place of the one before; no file is open if it fails. -/
def openFile (logger : Logger) (file : Option Bytes) : Logger :=
  { logger with file, files := file.elim logger.files (logger.files.append · []) }

/-- Does what is asked of the log, where it is known which file a path opens, if it opens one. -/
def perform (opens : Bytes → Option Bytes) (logger : Logger) : LogCommand → Logger
  | .setLevel level => { logger with level }
  | .setConsole console => { logger with console }
  | .openFile path => logger.openFile (opens path)
  | .closeFile => { logger with file := none }
  | .write entry => logger.write entry

/-- Does everything that is asked of the log, in order, while each path opens the same file. -/
def run (opens : Bytes → Option Bytes) (logger : Logger) (commands : List LogCommand) : Logger :=
  commands.foldl (perform opens) logger

end Logger

end TableStore
