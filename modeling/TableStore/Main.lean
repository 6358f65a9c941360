import Std.Time.Format
import TableStore.CommandLine

/-! The program: a session on the standard streams, with its log in a file. -/

namespace TableStore

/-- Where the log goes. -/
structure LogSinks where
  echo : Bool
  file : Option IO.FS.Handle

namespace LogSinks

/-- Opens what the options ask for; a file that cannot be opened stays away. -/
def ofOptions (options : Options) : IO LogSinks := do
  -- A path that is no text opens no file.
  let path := String.fromUTF8? ⟨options.file.toArray⟩
  let file ← try some <$> IO.FS.Handle.mk (path.getD "") .append catch _ => pure none
  return { echo := options.echo, file }

/-- Writes an entry with the time if it reaches the level. -/
def write (sinks : LogSinks) (level : LogLevel) (entry : LogEntry) : IO Unit := do
  if entry.reaches level then
    let time := (← Std.Time.PlainDateTime.now).format "uuuu-MM-dd HH:mm:ss.SSS"
    -- The time stands in front of the line, for both of the sinks.
    let line : ByteArray := ⟨(utf8 time ++ [space] ++ entry.line).toArray⟩
    if sinks.echo then (← IO.getStderr).write line
    if let some file := sinks.file then
      file.write line
      file.flush

end LogSinks

/-- Prints a text at once. -/
def putBytes (output : IO.FS.Stream) (text : Bytes) : IO Unit := do
  output.write ⟨text.toArray⟩
  output.flush

/-- The rest of a line after some of its bytes; there is no line at the end of the input. -/
partial def getBytesLine (input : IO.FS.Stream) (taken : ByteArray) : IO (Option Bytes) := do
  match (← input.read 1).toList with
  | [] => return if taken.isEmpty then none else some taken.toList
  | byte :: _ =>
    if byte == lineFeed then return some taken.toList
    else getBytesLine input (taken.push byte)

/-- Takes lines until one leaves or the input ends; the result is the last level of the log. -/
partial def converse (sinks : LogSinks) (input output : IO.FS.Stream) (session : Session) :
    IO LogLevel := do
  putBytes output prompt
  match ← getBytesLine input .empty with
  | none => return session.level
  | some line =>
    let turn := session.handle line
    putBytes output turn.output
    turn.log.forM (sinks.write session.level)
    if turn.continues then converse sinks input output turn.session
    else return turn.session.level

end TableStore

open TableStore in
/-- Runs a session unless the arguments make no sense. -/
def main (arguments : List String) : IO UInt32 := do
  match Options.parse (arguments.map utf8) with
  | .error refusal =>
    putBytes (← IO.getStderr) refusal.message
    return refusal.status
  | .ok options =>
    -- A log file that cannot be opened is told, and the session starts all the same.
    let sinks ← LogSinks.ofOptions options
    if sinks.file.isNone then putBytes (← IO.getStderr) options.fileWarning
    let output ← IO.getStdout
    putBytes output banner
    sinks.write options.level logStarted
    let level ← converse sinks (← IO.getStdin) output (.start options.level)
    sinks.write level logLeft
    return 0
