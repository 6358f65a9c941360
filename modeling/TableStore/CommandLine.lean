import TableStore.Session.Transcript

/-! The command line: its options, and what a run on a given input prints and writes. -/

namespace TableStore

/-- What the arguments choose: the level of the log, its file, and whether it is echoed. -/
structure Options where
  level : LogLevel
  file : Bytes
  echo : Bool
deriving DecidableEq

/-- A run that ends before it starts: its status, and what it says. -/
structure Refusal where
  status : UInt32
  message : Bytes
deriving DecidableEq

namespace Options

/-- What holds without arguments. -/
def standard : Options := { level := .info, file := "simpledb.log", echo := false }

/-- How to call the program. -/
def usage : Bytes := "Usage: simpledb [--log-level LEVEL] [--log-file PATH] [--echo-log]\n"

/-- The options after some arguments; the first one that makes no sense ends the run. -/
def parseFrom (options : Options) : List Bytes → Except Refusal Options
  | [] => .ok options
  | argument :: rest =>
    if argument == "--echo-log" then parseFrom { options with echo := true } rest
    else if argument == "-h" || argument == "--help" then .error { status := 0, message := usage }
    -- All other options take a value, so that none may come last.
    else match rest with
      | [] => .error { status := 2, message := usage }
      | value :: rest =>
        if argument == "--log-level" then
          match LogLevel.ofName? value with
          | some level => parseFrom { options with level } rest
          | none =>
            .error { status := 2, message := "Unknown log level '" ++ value ++ "'\n" }
        else if argument == "--log-file" then parseFrom { options with file := value } rest
        else .error { status := 2, message := usage }

/-- The options that arguments choose; an argument ends at its first NUL. -/
def parse (arguments : List Bytes) : Except Refusal Options :=
  standard.parseFrom (arguments.map (·.takeWhile (· != 0)))

/-- What is said if the log file cannot be opened. -/
def fileWarning (options : Options) : Bytes :=
  "Warning: cannot open log file '" ++ options.file ++ "', file logging disabled\n"

end Options

/-- What a run leaves behind: its status, what it printed on each stream, and the log. -/
structure RunResult where
  status : UInt32
  output : Bytes
  errors : Bytes
  logger : Logger

/-- Runs the program where there are no files yet, and it is known which file a path opens. -/
def runProgram (opens : Bytes → Option Bytes) (arguments : List Bytes) (input : Bytes) :
    RunResult :=
  -- No file has been opened yet, and nothing has been written.
  let logger := Logger.start ∅
  match Options.parse arguments with
  | .error refusal => { status := refusal.status, output := [], errors := refusal.message, logger }
  | .ok options =>
    let logger := logger.run opens
      [.setLevel options.level, .setConsole options.echo, .openFile options.file]
    -- The session begins with the level of the options, and can change it.
    let transcript := (Session.start options.level).run input
    { status := transcript.status
      output := transcript.output
      errors := if logger.file.isSome then [] else options.fileWarning
      logger := logger.run opens (transcript.log ++ [.closeFile]) }

end TableStore
