import HeaderAccord.CommandLine.Command
import HeaderAccord.Header.Document
import HeaderAccord.Run
import HeaderAccord.Text.Quoted

/-!
What a command does: its output, its exit code, and what it leaves on the disk. The file of the
journal is there before the checks begin, and holds their entries however they end.
-/

namespace HeaderAccord.CommandLine

/-- What ends a command without a verdict. -/
inductive Fatal
  | config (e : ConfigError)
  | check (e : CheckError)
  | io (f : IoFault)

/-- A record with named parts. -/
def recordText (name : String) (parts : List (String × String)) : String :=
  name ++ " \x7b " ++ ", ".intercalate (parts.map fun (part, text) => part ++ ": " ++ text) ++
    " \x7d"

def faultRecord (f : IoFault) : String :=
  match f.system? with
  | some (code, kind, words) =>
    recordText "Os"
      [("code", toString code), ("kind", kind), ("message", Text.quoted words)]
  | none =>
    match f with
    | .other message => recordText "Custom" [("kind", "Other"), ("error", Text.quoted message)]
    | _ => recordText "Error" [("kind", "InvalidData"), ("message", Text.quoted f.message)]

/-- A cause at a path. -/
def causeRecord (name : String) (path : Path) (source : String) : String :=
  recordText name [("path", Text.quoted path.text), ("source", source)]

namespace Fatal

def record : Fatal → String
  | config (.read path f) => causeRecord "Read" path (faultRecord f)
  | config (.parse path e) =>
    causeRecord "Parse" path ("Error(" ++ Text.quoted e.message ++ ")")
  | check (.readInput path f) => causeRecord "ReadInput" path (faultRecord f)
  | check (.readDir path f) => causeRecord "ReadDir" path (faultRecord f)
  | check (.log f) => "Log(" ++ faultRecord f ++ ")"
  | io f => faultRecord f

/-- The line that tells of it. -/
def text (f : Fatal) : String := "Error: " ++ f.record ++ "\n"

end Fatal

structure Outcome where
  exitCode : Nat
  stdout : String := ""
  fatal : Option Fatal := none
  /-- the disk after the command -/
  disk : Disk

def Outcome.failed (d : Disk) (f : Fatal) (stdout : String := "") : Outcome :=
  { exitCode := 1, stdout, fatal := some f, disk := d }

/-- Runs the checks and writes the summary. -/
def runToEnd (d : Disk) (config : Config) : ExceptT Fatal (StateM RunLog) CheckReport := do
  let report ← ExceptT.adapt Fatal.check (Run.checks d config)
  ExceptT.adapt Fatal.io (Run.finish report)
  return report

/-- Makes the empty file of a journal, and the folders that it lies in. -/
def openJournal (d : Disk) (path : Path) : Except IoFault Disk := do
  let d ← match path.parent? with
    | some parent => d.makeFolders parent
    | none => pure d
  d.write path ByteArray.empty

/-- Writes the lines of a journal to its file. -/
def closeJournal (d : Disk) (path : Path) (j : Journal) : Except IoFault Disk :=
  d.write path j.text.toUTF8

def closeJournals (d : Disk) (path? : Option Path) (journal? : Option Journal) :
    Except IoFault Disk :=
  match path?, journal? with
  | some path, some j => closeJournal d path j
  | _, _ => .ok d

/-- The log at the start of a run. -/
def startLog (journal? : Option Path) (now runName : String) : RunLog :=
  { journal := journal?.map fun _ => { runId := "bindcheck-" ++ runName }, now }

/-- Checks, with the file of the journal open. -/
def checkOpen (d : Disk) (config : Config) (journal? : Option Path) (now runName : String) :
    Outcome :=
  let (result, log) := (runToEnd d config).run.run (startLog journal? now runName)
  match closeJournals d journal? log.journal with
  | .error f => .failed d (.io f) log.console.text
  | .ok d =>
    match result with
    | .ok report => { exitCode := report.exitStatus, stdout := log.console.text, disk := d }
    | .error f => .failed d f log.console.text

def check (d : Disk) (inputs : Inputs) (journal? : Option Path) (now runName : String) :
    Outcome :=
  match inputs.load d with
  | .error e => .failed d (.config e)
  | .ok config =>
    match journal? with
    | none => checkOpen d config none now runName
    | some path =>
      match openJournal d path with
      | .error f => .failed d (.io f)
      | .ok d => checkOpen d config (some path) now runName

def inspect (d : Disk) (inputs : Inputs) : Outcome :=
  match inputs.load d with
  | .error e => .failed d (.config e)
  | .ok config =>
    match d.headerIndex config.headers config.exportMarker with
    | .error e => .failed d (.check e)
    | .ok index => { exitCode := 0, stdout := index.toJson.pretty ++ "\n", disk := d }

/-- Carries a command out on a disk, at some time and under the name of the run. -/
def Command.run (c : Command) (d : Disk) (now runName : String) : Outcome :=
  match c with
  | .check inputs journal? => CommandLine.check d inputs journal? now runName
  | .inspect inputs => CommandLine.inspect d inputs

end HeaderAccord.CommandLine
