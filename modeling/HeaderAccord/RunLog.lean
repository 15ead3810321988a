import HeaderAccord.Console
import HeaderAccord.Event
import HeaderAccord.Journal.Basic

/-!
The log of a run: lines on the console and, if there is a journal, an entry for each. The entries
carry the checker, the file and the symbol that the events so far have led to. An event whose line
cannot be written changes nothing else.
-/

namespace HeaderAccord

/-- The line that tells of an event on the console. -/
def Event.line : Event → String
  | fileStarted path => "== Checking " ++ path.text
  | functionFound function => "In " ++ function ++ ":"
  | argumentChecked argument type accepted =>
    "  " ++ (if accepted then "✔" else "✖") ++ " " ++ argument ++ ": " ++ type
  | failureRecorded message => message
  | structurePassed script name => "✔ Checked " ++ script ++ " struct " ++ name

structure RunLog where
  console : Console := {}
  journal : Option Journal := none
  /-- the time stamp of the entries -/
  now : String := ""
  checker : Option Checker := none
  file : Option String := none
  symbol : Option String := none

/-- Something that writes to the log of a run and may fail to. -/
abbrev Logging := ExceptT IoFault (StateM RunLog)

namespace RunLog

/-- An entry without trace id or context. -/
def plainEntry (log : RunLog) (level : LogLevel) (event : String) : LogEntry :=
  { timestamp := log.now, traceId := "", level, event }

/-- An entry with the context of the log. -/
def contextEntry (log : RunLog) (level : LogLevel) (event : String) : LogEntry :=
  { log.plainEntry level event with
    checker := log.checker, file := log.file, symbol := log.symbol }

/-- The context after an event: a file starts without symbol, a function is the symbol. -/
def enter (log : RunLog) : Event → RunLog
  | .fileStarted path => { log with file := some path.text, symbol := none }
  | .functionFound function => { log with symbol := some function }
  | _ => log

def details (members : List (String × Json)) : Option OrderedJson :=
  some (Json.object members).toOrdered

/-- The entry that tells of an event. A structure is the symbol of its own entry only. -/
def entryOf (log : RunLog) : Event → LogEntry
  | .fileStarted _ => log.contextEntry .debug "file_started"
  | .functionFound _ => log.contextEntry .debug "function_found"
  | .argumentChecked argument type accepted =>
    { log.contextEntry (if accepted then .info else .error) "argument_checked" with
      outcome := some (.ofBool accepted)
      details := details [("argument", .string argument), ("type", .string type)] }
  | .failureRecorded message =>
    { log.contextEntry .error "check_failed" with
      outcome := some .fail
      details := details [("message", .string message)] }
  | .structurePassed _ name =>
    { log.contextEntry .info "structure_checked" with
      symbol := some name
      outcome := some .pass }

def emit (log : RunLog) (e : LogEntry) : RunLog :=
  { log with journal := log.journal.map (·.emit e) }

/-- Writes one line to the console. -/
def line (text : String) : Logging Unit := do
  let log ← get
  let (result, console) := log.console.write (text ++ "\n")
  set { log with console }
  match result with
  | .ok () => return
  | .error fault => throw fault

/-- Adds an entry to the journal, if there is one. -/
def record (e : LogEntry) : Logging Unit := modify (·.emit e)

/-- Says which checker the events from now on come from. -/
def setChecker (checker : Checker) : Logging Unit :=
  modify fun log => { log with checker := some checker, file := none, symbol := none }

/-- Logs an event. -/
def notify (e : Event) : Logging Unit := do
  line e.line
  modify fun log => (log.enter e).emit ((log.enter e).entryOf e)

end RunLog

end HeaderAccord
