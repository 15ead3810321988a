import HeaderAccord.Proofs.Run.Logging

/-!
The context of a log. A log is told of checkers and events and is handed entries in any order, and
its console may refuse a line at any time and take the next one. The checker, the file and the symbol
that it keeps are at every moment those that a look back at the calls gives, if the refused ones are
passed over. So each entry for an event shows what the calls before it have led to, and an event whose
line is refused leaves no trace.
-/

namespace HeaderAccord.RunLog

/-- A call to a log. -/
inductive Request
  | setChecker (checker : Checker)
  | notify (e : Event)
  | record (e : LogEntry)

def Request.perform : Request → Logging Unit
  | setChecker checker => RunLog.setChecker checker
  | notify e => RunLog.notify e
  | record e => RunLog.record e

/-- A call, and the room that the console has for it. Between two calls the console may fill up or be
emptied, so every line may be refused, whatever became of those before it. -/
structure Step where
  room : Option Nat
  request : Request

def Step.run (step : Step) (log : RunLog) : Except IoFault Unit × RunLog :=
  step.request.perform.run.run { log with console := { log.console with room := step.room } }

/-- A call that was made, with the answer to it. -/
structure Answered where
  request : Request
  answer : Except IoFault Unit

/-- A log with the calls that were made to it. -/
structure Session where
  log : RunLog
  calls : List Answered := []

namespace Session

def step (s : Session) (step : Step) : Session where
  log := (step.run s.log).2
  calls := s.calls ++ [⟨step.request, (step.run s.log).1⟩]

def steps (s : Session) (steps : List Step) : Session := steps.foldl step s

end Session

/-! ### Looking back -/

namespace Answered

def checker? : Answered → Option Checker
  | ⟨.setChecker checker, _⟩ => some checker
  | _ => none

/-- The file that was started, if the line for it was taken. -/
def file? : Answered → Option String
  | ⟨.notify (.fileStarted path), .ok ()⟩ => some path.text
  | _ => none

/-- The function that was found, if the line for it was taken. -/
def function? : Answered → Option String
  | ⟨.notify (.functionFound function), .ok ()⟩ => some function
  | _ => none

end Answered

/-- What the last call that gives something has given, unless a call that ends it came later. -/
def lastSince {α : Type} (ends : Answered → Bool) (gives : Answered → Option α)
    (calls : List Answered) : Option α :=
  (calls.reverse.takeWhile fun call => !ends call).findSome? gives

/-- The checker that was set last. -/
def lastChecker (calls : List Answered) : Option Checker :=
  lastSince (fun _ => false) Answered.checker? calls

/-- The file that was started last, if that was after the last checker was set. -/
def lastFile (calls : List Answered) : Option String :=
  lastSince (·.checker?.isSome) Answered.file? calls

/-- The function that was found last, if that was after the last checker was set and the last file
started. -/
def lastFunction (calls : List Answered) : Option String :=
  lastSince (fun call => call.checker?.isSome || call.file?.isSome) Answered.function? calls

/-- The symbol of the entry for an event: a structure's own name, or the function found last. -/
def symbolFor (e : Event) (calls : List Answered) : Option String :=
  match e with
  | .structurePassed _ name => some name
  | _ => lastFunction calls

theorem lastSince_concat {α : Type} (ends : Answered → Bool) (gives : Answered → Option α)
    (calls : List Answered) (call : Answered) :
    lastSince ends gives (calls ++ [call]) =
      if ends call then none else (gives call).or (lastSince ends gives calls) := by
  rw [lastSince, List.reverse_append, List.reverse_singleton, List.singleton_append,
    List.takeWhile_cons]
  cases ends call with
  | true => rfl
  | false =>
      rw [lastSince]
      cases hgives : gives call <;> simp [hgives]

theorem lastChecker_concat (calls : List Answered) (call : Answered) :
    lastChecker (calls ++ [call]) = call.checker?.or (lastChecker calls) :=
  lastSince_concat _ _ calls call

theorem lastFile_concat (calls : List Answered) (call : Answered) :
    lastFile (calls ++ [call]) =
      if call.checker?.isSome then none else call.file?.or (lastFile calls) :=
  lastSince_concat _ _ calls call

theorem lastFunction_concat (calls : List Answered) (call : Answered) :
    lastFunction (calls ++ [call]) =
      if call.checker?.isSome || call.file?.isSome then none
      else call.function?.or (lastFunction calls) :=
  lastSince_concat _ _ calls call

/-! ### What a call does -/

theorem run_setChecker_step (room : Option Nat) (checker : Checker) (log : RunLog) :
    (Step.mk room (.setChecker checker)).run log =
      (.ok (), { log with
        console := { log.console with room }
        checker := some checker, file := none, symbol := none }) := rfl

theorem run_record_step (room : Option Nat) (e : LogEntry) (log : RunLog) :
    (Step.mk room (.record e)).run log =
      (.ok (), { log with console := { log.console with room } }.emit e) := rfl

theorem run_notify_taken {room : Option Nat} {e : Event} {log : RunLog} {console : Console}
    (h : { log.console with room }.write (e.line ++ "\n") = (.ok (), console)) :
    (Step.mk room (.notify e)).run log = (.ok (), { log with console }.told e) := by
  rw [Step.run, Request.perform, run_notify, h]

theorem run_notify_refused {room : Option Nat} {e : Event} {log : RunLog} {fault : IoFault}
    {console : Console}
    (h : { log.console with room }.write (e.line ++ "\n") = (.error fault, console)) :
    (Step.mk room (.notify e)).run log = (.error fault, { log with console }) := by
  rw [Step.run, Request.perform, run_notify, h]

theorem checker_told (log : RunLog) (e : Event) : (log.told e).checker = log.checker := by
  cases e <;> rfl

theorem file_told (log : RunLog) (e : Event) :
    (log.told e).file = (Answered.file? ⟨.notify e, .ok ()⟩).or log.file := by
  cases e <;> rfl

theorem symbol_told (log : RunLog) (e : Event) :
    (log.told e).symbol =
      if (Answered.file? ⟨.notify e, .ok ()⟩).isSome then none
      else (Answered.function? ⟨.notify e, .ok ()⟩).or log.symbol := by
  cases e <;> rfl

/-! ### Keeping in step -/

/-- A log has the context that the calls have led to, and still has its journal. -/
structure InStep (log : RunLog) (calls : List Answered) : Prop where
  checker : log.checker = lastChecker calls
  file : log.file = lastFile calls
  symbol : log.symbol = lastFunction calls
  journal : ∃ j, log.journal = some j

section

variable {log : RunLog} {calls : List Answered}

theorem InStep.withConsole (h : InStep log calls) (console : Console) :
    InStep { log with console } calls :=
  ⟨h.checker, h.file, h.symbol, h.journal⟩

theorem InStep.emit (h : InStep log calls) (e : LogEntry) : InStep (log.emit e) calls := by
  obtain ⟨j, hj⟩ := h.journal
  exact ⟨h.checker, h.file, h.symbol, j.emit e, by rw [RunLog.emit, hj, Option.map_some]⟩

/-- A call that gives nothing is passed over. -/
theorem InStep.pass (h : InStep log calls) {call : Answered} (hchecker : call.checker? = none)
    (hfile : call.file? = none) (hfunction : call.function? = none) :
    InStep log (calls ++ [call]) := by
  refine ⟨?_, ?_, ?_, h.journal⟩
  · rw [lastChecker_concat, hchecker, h.checker]
    rfl
  · rw [lastFile_concat, hchecker, hfile, h.file]
    rfl
  · rw [lastFunction_concat, hchecker, hfile, hfunction, h.symbol]
    rfl

/-- An event whose line is refused counts for nothing. -/
theorem InStep.refused (h : InStep log calls) (e : Event) (fault : IoFault) :
    InStep log (calls ++ [⟨.notify e, .error fault⟩]) :=
  h.pass rfl (by cases e <;> rfl) (by cases e <;> rfl)

theorem InStep.setChecker (h : InStep log calls) (checker : Checker)
    (answer : Except IoFault Unit) :
    InStep { log with checker := some checker, file := none, symbol := none }
      (calls ++ [⟨.setChecker checker, answer⟩]) := by
  refine ⟨?_, ?_, ?_, h.journal⟩
  · rw [lastChecker_concat]
    rfl
  · rw [lastFile_concat]
    rfl
  · rw [lastFunction_concat]
    rfl

theorem InStep.told (h : InStep log calls) (e : Event) :
    InStep (log.told e) (calls ++ [⟨.notify e, .ok ()⟩]) := by
  obtain ⟨j, hj⟩ := h.journal
  have hset : Answered.checker? ⟨.notify e, .ok ()⟩ = none := rfl
  refine ⟨?_, ?_, ?_, _, by rw [journal_told, hj, Option.map_some]⟩
  · rw [checker_told, lastChecker_concat, hset, h.checker]
    rfl
  · rw [file_told, lastFile_concat, hset, h.file]
    rfl
  -- a file that starts both ends the look back and clears the symbol
  · rw [symbol_told, lastFunction_concat, hset, h.symbol]
    rfl

/-- Every call keeps a log in step with the calls. -/
theorem InStep.run (h : InStep log calls) (step : Step) :
    InStep (step.run log).2 (calls ++ [⟨step.request, (step.run log).1⟩]) := by
  obtain ⟨room, request⟩ := step
  cases request with
  | setChecker checker =>
      rw [run_setChecker_step]
      exact (h.withConsole _).setChecker checker _
  | record e =>
      rw [run_record_step]
      exact ((h.withConsole _).emit e).pass rfl rfl rfl
  | notify e =>
      rcases hwrite : { log.console with room }.write (e.line ++ "\n") with
        ⟨fault | ⟨⟨⟩⟩, console⟩
      · rw [run_notify_refused hwrite]
        exact (h.withConsole console).refused e fault
      · rw [run_notify_taken hwrite]
        exact (h.withConsole console).told e

end

/-- A session stays in step however long it is. -/
theorem InStep.steps {s : Session} (h : InStep s.log s.calls) (steps : List Step) :
    InStep (s.steps steps).log (s.steps steps).calls := by
  induction steps generalizing s with
  | nil => exact h
  | cons step steps ih => exact ih (h.run step)

/-- A session with a new log and a journal. -/
def Session.start (console : Console) (j : Journal) (now : String) : Session where
  log := { console, journal := some j, now }

theorem inStep_start (console : Console) (j : Journal) (now : String) :
    InStep (Session.start console j now).log (Session.start console j now).calls :=
  ⟨rfl, rfl, rfl, j, rfl⟩

/-- The entry for an event has the context of the log after it. -/
theorem entryOf_enter (log : RunLog) (console : Console) (e : Event) (calls : List Answered)
    (h : InStep ({ log with console }.told e) calls) :
    ({ log with console }.enter e).entryOf e =
      { log.entryOf e with
        checker := lastChecker calls, file := lastFile calls, symbol := symbolFor e calls } := by
  rw [← h.checker, ← h.file]
  cases e <;> simp [symbolFor, ← h.symbol] <;> rfl

theorem traceId_entryOf (log : RunLog) (e : Event) : (log.entryOf e).traceId = "" := by
  cases e <;> rfl

theorem journal_emit_of_no_traceId (j : Journal) {e : LogEntry} (h : e.traceId = "") :
    j.emit e = { j with
      issued := j.issued + 1
      lines := j.lines.push
        (LogEntry.line { e with traceId := Journal.traceId j.runId (j.issued + 1) }) } := by
  rw [Journal.emit, h]
  rfl

end HeaderAccord.RunLog
