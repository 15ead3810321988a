import HeaderAccord.Path

/-!
What the checks report. A failure is a message and the checker that found it. While a check runs it
hands each event to whoever watches it and does not look at what becomes of it, unless the watcher
gives up.
-/

namespace HeaderAccord

inductive Checker
  /-- a pointer parameter that is missing or not represented by a reference or pointer -/
  | arguments
  /-- a header function that no source file binds -/
  | coverage
  /-- a structure that the header does not know or that has other fields -/
  | structures
  deriving DecidableEq, Repr

def Checker.name : Checker → String
  | arguments => "arguments"
  | coverage => "coverage"
  | structures => "structures"

structure CheckFailure where
  checker : Checker
  message : String
  deriving DecidableEq, Repr

inductive Event
  /-- a source file or the build script is about to be checked -/
  | fileStarted (path : Path)
  /-- a header function was found in the current file -/
  | functionFound (function : String)
  /-- a pointer parameter was compared with its type in the binding -/
  | argumentChecked (argument type : String) (accepted : Bool)
  /-- a failure that is not the mark of an argument -/
  | failureRecorded (message : String)
  /-- a structure of the build script has the fields of the header's -/
  | structurePassed (script name : String)
  deriving DecidableEq, Repr

end HeaderAccord
