import Mathlib.Data.List.Induction
import TableStore.Log.Logger

/-!
What the log has written. Main statement: whatever has been asked of it, and whichever paths could
be opened, the console and every file have the lines of just those entries that they were to get.
-/

namespace TableStore

/-! ## Steps -/

/-- A command, and the file that each path opens at that moment, if it opens one. -/
structure LogStep where
  command : LogCommand
  opens : Bytes → Option Bytes

namespace LogStep

/-- The level that a step sets. -/
def level? (step : LogStep) : Option LogLevel :=
  match step.command with
  | .setLevel level => some level
  | _ => none

/-- Whether a step that switches the console switches it on. -/
def console? (step : LogStep) : Option Bool :=
  match step.command with
  | .setConsole console => some console
  | _ => none

/-- The file that a step opens or closes leaves open, if it leaves one. -/
def file? (step : LogStep) : Option (Option Bytes) :=
  match step.command with
  | .openFile path => some (step.opens path)
  | .closeFile => some none
  | _ => none

/-- The entry that a step logs. -/
def entry? (step : LogStep) : Option LogEntry :=
  match step.command with
  | .write entry => some entry
  | _ => none

end LogStep

/-- What steps set last, or what there is at the start. -/
def latest {α : Type} (start : α) (setting? : LogStep → Option α) (steps : List LogStep) : α :=
  (steps.filterMap setting?).getLast?.getD start

/-- An entry that is logged, with the steps before it. -/
structure LogCall where
  before : List LogStep
  entry : LogEntry

/-- The entries that are logged, in order, when some steps have been made before. -/
def logCalls (before : List LogStep) : List LogStep → List LogCall
  | [] => []
  | step :: steps =>
    -- The settings of an entry are those of the steps in front of it.
    (step.entry?.map fun entry => { before, entry }).toList ++ logCalls (before ++ [step]) steps

namespace LogCall

/-- Whether the entry is as grave as the level that is in force. -/
def isEnabled (call : LogCall) : Bool :=
  (latest .info LogStep.level? call.before).rank ≤ call.entry.level.rank

/-- Whether the console is to get the entry. -/
def isShown (call : LogCall) : Bool :=
  call.isEnabled && latest true LogStep.console? call.before

/-- Whether a file is to get the entry. -/
def isKept (name : Bytes) (call : LogCall) : Bool :=
  call.isEnabled && latest none LogStep.file? call.before == some name

/-- The entry as a line. -/
def line (call : LogCall) : Bytes :=
  "[" ++ call.entry.level.name ++ "] " ++ call.entry.message ++ "\n"

end LogCall

/-- The lines of the entries that a sink gets. -/
def linesOf (gets : LogCall → Bool) (steps : List LogStep) : Bytes :=
  ((logCalls [] steps).filter gets).flatMap LogCall.line

variable {α : Type} {steps : List LogStep}

/-- The last step sets what is in force, or else those before it do. -/
theorem latest_concat (start : α) (setting? : LogStep → Option α) (steps : List LogStep)
    (step : LogStep) :
    latest start setting? (steps ++ [step]) =
      (setting? step).getD (latest start setting? steps) := by
  -- Either the last step sets something, or the steps before it decide.
  cases sets : setting? step with
  | none => simp [latest, sets]
  | some setting => simp [latest, sets]

/-- The last step comes after all others, and before none of them. -/
theorem logCalls_concat (before steps : List LogStep) (step : LogStep) :
    logCalls before (steps ++ [step]) = logCalls before steps ++
      (step.entry?.map fun entry => { before := before ++ steps, entry }).toList := by
  -- The steps pass over to those that have been made before, which stay quantified over.
  induction steps generalizing before with
  | nil => simp [logCalls]
  | cons first steps ih =>
    rw [List.cons_append, logCalls, ih, logCalls, List.append_assoc, List.append_assoc]
    rfl

/-- A sink gets one more line exactly if it gets the entry that is logged last. -/
theorem linesOf_concat (gets : LogCall → Bool) (steps : List LogStep) (step : LogStep) :
    linesOf gets (steps ++ [step]) = linesOf gets steps ++
      step.entry?.elim [] fun entry =>
        if gets ⟨steps, entry⟩ then LogCall.line ⟨steps, entry⟩ else [] := by
  -- The last entry, if there is one, is judged by all the steps before it.
  rw [linesOf, logCalls_concat, List.filter_append, List.flatMap_append, ← linesOf]
  cases step.entry? with
  | none => rfl
  | some entry =>
    congr 1
    by_cases got : gets ⟨steps, entry⟩ = true
    · simp [got]
    · simp [got]

namespace Logger

variable {files : Files} {logger : Logger}

/-! ## One step -/

/-- The log after a step. -/
def follow (logger : Logger) (step : LogStep) : Logger :=
  logger.perform step.opens step.command

/-- An entry that is written changes nothing but what is written. -/
theorem write_settings (logger : Logger) (entry : LogEntry) :
    (logger.write entry).level = logger.level ∧ (logger.write entry).console = logger.console ∧
      (logger.write entry).file = logger.file := by
  -- Whether or not the entry is written, the settings are those from before.
  unfold write
  split
  · exact ⟨rfl, rfl, rfl⟩
  · exact ⟨rfl, rfl, rfl⟩

/-- A step sets what it is there to set, and nothing else. -/
theorem follow_settings (logger : Logger) (step : LogStep) :
    (logger.follow step).level = step.level?.getD logger.level ∧
      (logger.follow step).console = step.console?.getD logger.console ∧
      (logger.follow step).file = step.file?.getD logger.file := by
  -- Each setting is changed by the steps of its own kind alone.
  obtain ⟨command, opens⟩ := step
  cases command with
  | setLevel level => exact ⟨rfl, rfl, rfl⟩
  | setConsole console => exact ⟨rfl, rfl, rfl⟩
  | openFile path => exact ⟨rfl, rfl, rfl⟩
  | closeFile => exact ⟨rfl, rfl, rfl⟩
  | write entry => exact logger.write_settings entry

/-- The console gets an entry that is grave enough while it is on. -/
theorem consoleText_write (logger : Logger) (entry : LogEntry) :
    (logger.write entry).consoleText = logger.consoleText ++
      if entry.reaches logger.level && logger.console then entry.line else [] := by
  -- An entry that is not grave enough is not written, and neither is one for a console that is off.
  unfold write consoleText
  cases entry.reaches logger.level with
  | false => simp
  | true => cases logger.console <;> simp

/-- The open file gets an entry that is grave enough, and no other file does. -/
theorem contents_write (logger : Logger) (entry : LogEntry) (name : Bytes) :
    (logger.write entry).files.contents name = logger.files.contents name ++
      if entry.reaches logger.level && logger.file == some name then entry.line else [] := by
  unfold write
  cases entry.reaches logger.level with
  | false => simp
  | true =>
    cases opened : logger.file with
    | none => simp
    | some file =>
      simp only [if_true, Option.elim_some, Files.contents_append, Bool.true_and]
      -- Another file than the open one is left as it is.
      by_cases same : file = name
      · simp [same]
      · simp [same]

/-- A file has the same contents when it is opened. -/
theorem contents_openFile (logger : Logger) (file : Option Bytes) (name : Bytes) :
    (logger.openFile file).files.contents name = logger.files.contents name := by
  -- A file that cannot be opened leaves all files alone.
  cases file with
  | none => rfl
  | some opened =>
    show (logger.files.append opened []).contents name = _
    rw [Files.contents_append]
    -- The file that is opened gets nothing at its end, and no other file gets anything.
    split_ifs with same
    · rw [same, List.append_nil]
    · rfl

/-- The console gets nothing but what is logged. -/
theorem consoleText_follow (logger : Logger) (step : LogStep) :
    (logger.follow step).consoleText = logger.consoleText ++ step.entry?.elim [] fun entry =>
      if entry.reaches logger.level && logger.console then entry.line else [] := by
  -- Only a step that logs an entry writes, and all others leave the text as it is.
  obtain ⟨command, opens⟩ := step
  cases command with
  | write entry => exact logger.consoleText_write entry
  | _ => exact (List.append_nil _).symm

/-- A file gets nothing but what is logged. -/
theorem contents_follow (logger : Logger) (step : LogStep) (name : Bytes) :
    (logger.follow step).files.contents name = logger.files.contents name ++
      step.entry?.elim [] fun entry =>
        if entry.reaches logger.level && logger.file == some name then entry.line else [] := by
  -- A step that opens a file may create it, but adds nothing to it.
  obtain ⟨command, opens⟩ := step
  cases command with
  | write entry => exact logger.contents_write entry name
  | openFile path =>
    exact (logger.contents_openFile (opens path) name).trans (List.append_nil _).symm
  | _ => exact (List.append_nil _).symm

/-! ## Runs -/

/-- The log after steps. -/
def after (logger : Logger) (steps : List LogStep) : Logger := steps.foldl follow logger

/-- A log that has done what it was asked to, from the start on with some files. -/
structure Obeys (files : Files) (steps : List LogStep) (logger : Logger) : Prop where
  level : logger.level = latest .info LogStep.level? steps
  console : logger.console = latest true LogStep.console? steps
  file : logger.file = latest none LogStep.file? steps
  shown : logger.consoleText = linesOf LogCall.isShown steps
  kept : ∀ name, logger.files.contents name =
    files.contents name ++ linesOf (LogCall.isKept name) steps

/-- A log that has not been asked for anything has done what it was asked to. -/
theorem obeys_start (files : Files) : Obeys files [] (start files) where
  level := rfl
  console := rfl
  file := rfl
  shown := rfl
  kept _ := (List.append_nil _).symm

/-- A log that has done what it was asked to does so in the next step. -/
theorem Obeys.follow (obeys : Obeys files steps logger) (step : LogStep) :
    Obeys files (steps ++ [step]) (logger.follow step) := by
  obtain ⟨level, console, file⟩ := logger.follow_settings step
  -- What is in force before the step decides on the entry that it logs.
  refine ⟨?_, ?_, ?_, ?_, fun name => ?_⟩
  · rw [level, latest_concat, obeys.level]
  · rw [console, latest_concat, obeys.console]
  · rw [file, latest_concat, obeys.file]
  · rw [consoleText_follow, linesOf_concat, obeys.shown, obeys.level, obeys.console]
    rfl
  · rw [contents_follow, linesOf_concat, obeys.kept, obeys.level, obeys.file, List.append_assoc]
    rfl

/-- A log has done what it was asked to after any steps from the start on. -/
theorem obeys_after (files : Files) (steps : List LogStep) :
    Obeys files steps ((start files).after steps) := by
  -- The last step is taken by a log that has done what it was asked to in all others.
  induction steps using List.reverseRecOn with
  | nil => exact obeys_start files
  | append_singleton steps step ih =>
    rw [after, List.foldl_append]
    exact ih.follow step

end Logger

/--
Whatever has been asked of the log, the console has the lines of exactly the entries that were at
least as grave as the level in force, while it was on. Every file has what it contained at the start
and the lines of exactly the entries of this gravity that were logged while the step that opened or
closed a file last had opened this one. A step that opens a file leaves the one open that it finds,
and none if it fails. It is the same for commands that are run where each path always opens one
file.
-/
theorem sinks_get_enabled_entries (files : Files) (steps : List LogStep) :
    ((Logger.start files).after steps).consoleText = linesOf LogCall.isShown steps ∧
      (∀ name, ((Logger.start files).after steps).files.contents name =
        files.contents name ++ linesOf (LogCall.isKept name) steps) ∧
      (∀ path opens, ((Logger.start files).after (steps ++ [⟨.openFile path, opens⟩])).file =
        opens path) ∧
      ∀ opens commands, (Logger.start files).run opens commands =
        (Logger.start files).after (commands.map (⟨·, opens⟩)) := by
  -- The invariant of the run has the two contents, and the file that the last step leaves open.
  have obeys := Logger.obeys_after files steps
  refine ⟨obeys.shown, obeys.kept, fun path opens => ?_, fun opens commands => ?_⟩
  · -- The last step of all is the one that opens the file.
    rw [(Logger.obeys_after files _).file, latest_concat]
    rfl
  · -- A run is the same steps, with what each path opens put beside each of them.
    rw [Logger.after, List.foldl_map]
    rfl

/-- A file that is closed because another could not be opened gets nothing until it is reopened. -/
example : linesOf (LogCall.isKept "a") (
    ([.openFile "a", .setConsole false, .write ⟨.info, "first"⟩].map (⟨·, some⟩)) ++
    ([.openFile "b", .write ⟨.fatal, "second"⟩].map (⟨·, fun _ => none⟩)) ++
    ([.setLevel .warn, .openFile "a", .write ⟨.info, "third"⟩, .write ⟨.error, "fourth"⟩].map
      (⟨·, some⟩))) = utf8 "[INFO] first\n[ERROR] fourth\n" := by
  decide +kernel

end TableStore
