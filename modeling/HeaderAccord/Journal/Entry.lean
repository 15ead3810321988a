import HeaderAccord.Event
import HeaderAccord.Json.Printer

/-!
Entries of a journal. An entry is one line of JSON; a field that is absent is left out of it.
-/

namespace HeaderAccord

inductive LogLevel
  | debug
  | info
  | warn
  | error
  deriving DecidableEq, Repr

def LogLevel.name : LogLevel → String
  | debug => "debug"
  | info => "info"
  | warn => "warn"
  | error => "error"

def LogLevel.all : List LogLevel := [debug, info, warn, error]

inductive CheckOutcome
  | pass
  | fail
  deriving DecidableEq, Repr

namespace CheckOutcome

def name : CheckOutcome → String
  | pass => "pass"
  | fail => "fail"

def all : List CheckOutcome := [pass, fail]

def ofBool (ok : Bool) : CheckOutcome := if ok then pass else fail

end CheckOutcome

def Checker.all : List Checker := [arguments, coverage, structures]

/-- A file that a run reads, pinned by its digest. -/
structure Artifact where
  path : String
  kind : String
  sha256 : String
  sizeBytes : UInt64
  deriving DecidableEq

def Artifact.toJson (a : Artifact) : Json :=
  .object
    [("path", .string a.path), ("kind", .string a.kind), ("sha256", .string a.sha256),
     ("size_bytes", Json.natural a.sizeBytes.toNat)]

structure LogEntry where
  timestamp : String
  traceId : String
  level : LogLevel
  event : String
  checker : Option Checker := none
  file : Option String := none
  /-- a function or a structure -/
  symbol : Option String := none
  outcome : Option CheckOutcome := none
  exitCode : Option Int32 := none
  artifacts : Option (List Artifact) := none
  details : Option OrderedJson := none

namespace LogEntry

def optionalMember {α : Type} (name : String) (encode : α → Json) (value : Option α) :
    Option (String × Json) :=
  value.map fun v => (name, encode v)

def toJson (e : LogEntry) : Json :=
  Json.objectOf
    [some ("timestamp", .string e.timestamp), some ("trace_id", .string e.traceId),
     some ("level", .string e.level.name), some ("event", .string e.event),
     optionalMember "checker" (fun c => .string c.name) e.checker,
     optionalMember "file" .string e.file,
     optionalMember "symbol" .string e.symbol,
     optionalMember "outcome" (fun o => .string o.name) e.outcome,
     optionalMember "exit_code" (fun n => .integer n.toInt) e.exitCode,
     optionalMember "artifacts" (fun as => .array (as.map (·.toJson))) e.artifacts,
     optionalMember "details" (·.val) e.details]

/-- The entry as a line, without the line break. -/
def line (e : LogEntry) : String := e.toJson.compact

end LogEntry

end HeaderAccord
